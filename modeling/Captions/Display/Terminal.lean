import Captions.Display.Basic

/-! # Terminals

A display that turns calls into the escape sequences of a terminal. Painted text
stands between the sequence that selects its colour and the one that resets it.
Rows and columns are counted from one on the wire.
-/

namespace Captions

/-- The text written to a terminal, and whether it takes more. -/
structure Terminal where
  out : String := ""
  plugged : Bool := true
deriving DecidableEq, Repr

namespace Terminal

/-- An escape sequence with the given end. -/
def sequence (tail : String) : String :=
  "\x1b[" ++ tail

/-- Moves the caret to a cell. -/
def moveTo (target : Position) : String :=
  sequence (toString (target.row + 1).toNat ++ ";" ++ toString (target.column + 1).toNat ++ "H")

/-- Selects the colour of the text that follows. -/
def foreground (color : Color) : String :=
  sequence ("38;5;" ++ toString color.paletteIndex ++ "m")

/-- Selects the terminal's own colours. -/
def resetColors : String := sequence "0m"

/-- Hides the caret. -/
def hideCaret : String := sequence "?25l"

/-- Shows the caret. -/
def showCaret : String := sequence "?25h"

/-- Blanks the whole screen. -/
def clear : String := sequence "2J"

/-- The text written for a call. Flushing writes nothing. -/
def encode : Call → String
  | .move target => moveTo target
  | .paint text color => foreground color ++ text ++ resetColors
  | .flush => ""

/-- The text that prepares a terminal for drawing. -/
def entrance : String :=
  hideCaret ++ clear ++ moveTo .origin

/-- The text that hands a terminal back. -/
def exit : String :=
  resetColors ++ moveTo .origin ++ showCaret

/-- Writes text, unless the terminal takes none. -/
def write (text : String) (terminal : Terminal) : Status × Terminal :=
  if terminal.plugged then (.done, { terminal with out := terminal.out ++ text })
  else (.refused .unplugged, terminal)

/-- Carries out a call. Flushing needs no room for output and always succeeds. -/
def perform (call : Call) (terminal : Terminal) : Status × Terminal :=
  match call with
  | .flush => (.done, terminal)
  | call => terminal.write (encode call)

/-- Clears the screen and hides the caret. -/
def enter (terminal : Terminal) : Status × Terminal :=
  terminal.write entrance

/-- Restores colours and caret. -/
def leave (terminal : Terminal) : Status × Terminal :=
  terminal.write exit

/-- Plugs a terminal in or out. -/
def plug (plugged : Bool) (terminal : Terminal) : Terminal :=
  { terminal with plugged }

/-- Forgets the text written so far. -/
def rewind (terminal : Terminal) : Terminal :=
  { terminal with out := "" }

end Terminal

/-- A terminal is either plugged in or not: only a limit of no calls at all can
be rehearsed, every other one leaves it plugged in. -/
instance : Rehearsal Terminal where
  perform := Terminal.perform
  failAfter limit := Terminal.plug (limit != some 0)

/-- A terminal that is plugged in gets the encodings of all calls in order. -/
theorem Terminal.carryOut_plugged (calls : List Call) (out : String) :
    carryOut calls (⟨out, true⟩ : Terminal) =
      (.done, ⟨out ++ String.join (calls.map encode), true⟩) := by
  induction calls generalizing out with
  | nil => simp
  | cons call rest ih =>
      have h : Display.perform call (⟨out, true⟩ : Terminal) =
          (.done, ⟨out ++ encode call, true⟩) := by
        cases call <;> simp [Display.perform, perform, write, encode]
      rw [carryOut_cons_of_done h, ih]
      simp [String.join_cons, String.append_assoc]

end Captions
