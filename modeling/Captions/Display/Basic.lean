import Captions.Color
import Captions.Frame

/-! # Displays

A display carries out three kinds of calls: it moves its caret, paints text from
the caret on, and flushes what was painted to the device. A call may be refused,
after which the display can be used again, or break the display for good.
-/

namespace Captions

/-- A call to a display. -/
inductive Call where
  /-- Move the caret to a cell. -/
  | move (target : Position)
  /-- Paint text rightwards from the caret. -/
  | paint (text : String) (color : Color)
  /-- Bring everything painted so far to the device. -/
  | flush
deriving DecidableEq, Repr

/-- Why a display refuses a call. -/
inductive Fault where
  /-- The device takes no output. -/
  | unplugged
deriving DecidableEq, Repr

/-- The cause as shown to the user. -/
def Fault.message : Fault → String
  | unplugged => "display unplugged"

/-- How a call ended. -/
inductive Status where
  | done
  /-- The call had no effect. -/
  | refused (fault : Fault)
  /-- The display is gone. -/
  | broken
deriving DecidableEq, Repr

/-- A device that carries out calls. -/
class Display (δ : Type) where
  /-- Carries out one call: how it ended, and the display after it. -/
  perform : Call → δ → Status × δ

/-- Carries out calls one after the other up to the first that is not done. -/
def carryOut {δ : Type} [Display δ] : List Call → δ → Status × δ
  | [], display => (.done, display)
  | call :: rest, display =>
    match Display.perform call display with
    | (.done, display) => carryOut rest display
    | stopped => stopped

/-- A display whose failures can be rehearsed. -/
class Rehearsal (δ : Type) extends Display δ where
  /-- Lets the given number of calls succeed before all others are refused;
  without a number, no call is refused any more. -/
  failAfter : Option Nat → δ → δ

section CarryOut

variable {δ : Type} [Display δ]

@[simp] theorem carryOut_nil (display : δ) : carryOut [] display = (.done, display) := rfl

theorem carryOut_cons_of_done {call : Call} {rest : List Call} {display next : δ}
    (h : Display.perform call display = (.done, next)) :
    carryOut (call :: rest) display = carryOut rest next := by
  simp [carryOut, h]

/-- Calls can be carried out in two batches, the second only if the first was
done entirely. -/
theorem carryOut_append (first second : List Call) (display : δ) :
    carryOut (first ++ second) display =
      match carryOut first display with
      | (.done, next) => carryOut second next
      | stopped => stopped := by
  induction first generalizing display with
  | nil => rfl
  | cons call rest ih =>
      simp only [List.cons_append, carryOut]
      split
      next next _ => exact ih next
      next stopped _ =>
        split
        next heq => simp_all
        next => rfl

end CarryOut

end Captions
