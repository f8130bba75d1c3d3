import Captions.Timecode
import Captions.Cue.Basic

/-! # Writing cues

The canonical line of a cue is `MM:SS MM:SS [Placement, Color] text`, where the
bracket is left out unless the cue has both a placement and a colour. A listing
is one such line for each cue.
-/

namespace Captions

/-- Why cues could not be written. -/
inductive ListingError where
  /-- There is no time code for the offset. -/
  | offsetTooLarge (offset : Nat)
  /-- The device takes no more bytes. -/
  | deviceFull
deriving DecidableEq, Repr

namespace ListingError

/-- The cause as shown to the user. -/
def message : ListingError → String
  | offsetTooLarge offset => "Offset " ++ Duration.describe offset ++ " does not fit in MM:SS"
  | deviceFull => "display unplugged"

/-- What failed, then why. -/
def chain (error : ListingError) : List String :=
  ["Failed to write cues.", error.message]

end ListingError

namespace Cue

/-- The time code of an offset as text. -/
def printTime (time : Nat) : Except ListingError String :=
  match Timecode.ofOffset? time with
  | some code => .ok code.render
  | none => .error (.offsetTooLarge time)

theorem printTime_eq_ok {time : Nat} {code : Timecode} (h : Timecode.ofOffset? time = some code) :
    printTime time = .ok code.render := by
  simp only [printTime, h]

/-- The bracket of a cue with the space before it, or nothing. -/
def printStyle (cue : Cue) : String :=
  match cue.placement, cue.color with
  | some placement, some color => " [" ++ placement.name ++ ", " ++ color ++ "]"
  | _, _ => ""

/-- The canonical line of a cue, line end included. -/
def print (cue : Cue) : Except ListingError String := do
  let showAt ← printTime cue.showAt
  let hideAt ← printTime cue.hideAt
  return showAt ++ " " ++ hideAt ++ cue.printStyle ++ " " ++ cue.text ++ "\n"

/-- The canonical lines of cues, one after the other. -/
def listing : List Cue → Except ListingError String
  | [] => .ok ""
  | cue :: rest => do
    let line ← cue.print
    let lines ← listing rest
    return line ++ lines

/-- A listing for a device that takes at most `capacity` bytes, if limited. -/
def listingWithin (capacity : Option Nat) (cues : List Cue) : Except ListingError String := do
  let text ← listing cues
  if capacity.any (· < text.utf8ByteSize) then .error .deviceFull else .ok text

end Cue

end Captions
