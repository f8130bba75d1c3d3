import Captions.Cue.Basic
import Captions.DrawError

/-! # The log

Everything that a reading, a board or a session reports while it works, with the
level that decides whether it is kept.
-/

namespace Captions

/-- How important an event is, the most severe level first. -/
inductive Level where
  | error
  | warn
  | info
  | debug
  | trace
deriving DecidableEq, Repr

namespace Level

/-- The name of a level. -/
def name : Level → String
  | error => "ERROR"
  | warn => "WARN"
  | info => "INFO"
  | debug => "DEBUG"
  | trace => "TRACE"

/-- How far a level is from the most severe one. -/
def depth : Level → Nat
  | error => 0
  | warn => 1
  | info => 2
  | debug => 3
  | trace => 4

end Level

/-- Something worth logging. -/
inductive Event where
  /-- A line of the input is a cue. -/
  | acceptedCue (line : Nat)
  /-- A line of the input is not a cue and is passed over. -/
  | malformedCue (line : Nat) (error : MalformedCue)
  /-- A cue was scheduled. -/
  | armingCue (text : String) (showAt hideAt : Nat)
  /-- A text is about to be drawn. -/
  | showingCue (text : String) (placement : Placement) (position : Position)
  /-- A text is about to be erased. -/
  | hidingCue (text : String) (placement : Placement) (position : Position)
  /-- A text to be erased is not on the board. -/
  | nothingToHide (text : String)
  /-- A text could not be drawn. -/
  | failedToShow (text : String) (error : DrawError)
  /-- A text could not be erased. -/
  | failedToHide (text : String) (error : DrawError)
deriving DecidableEq, Repr

namespace Event

/-- The level of an event. -/
def level : Event → Level
  | acceptedCue .. | armingCue .. | showingCue .. | hidingCue .. => .debug
  | malformedCue .. | failedToShow .. | failedToHide .. => .warn
  | nothingToHide .. => .trace

/-- What happened, without the particulars. -/
def message : Event → String
  | acceptedCue .. => "accepted cue"
  | malformedCue .. => "skipping malformed cue"
  | armingCue .. => "arming cue"
  | showingCue .. => "showing cue"
  | hidingCue .. => "hiding cue"
  | nothingToHide .. => "nothing to hide"
  | failedToShow .. => "failed to show cue"
  | failedToHide .. => "failed to hide cue"

/-- The value of one particular of an event. -/
inductive Value where
  | text (value : String)
  | number (value : Nat)
deriving DecidableEq, Repr

/-- The particulars of an event by name, in the order in which they are logged. -/
def fields : Event → List (String × Value)
  | acceptedCue line => [("line", .number line)]
  | malformedCue line error =>
    [("line", .number line), ("error", .text error.message),
      ("reason", .text error.reason.message)]
  | armingCue text showAt hideAt =>
    [("text", .text text), ("show_at", .text (Duration.describe showAt)),
      ("hide_at", .text (Duration.describe hideAt))]
  | showingCue text placement position | hidingCue text placement position =>
    [("text", .text text), ("placement", .text placement.name),
      ("column", .number position.column.toNat), ("row", .number position.row.toNat)]
  | nothingToHide text => [("text", .text text)]
  | failedToShow text error | failedToHide text error =>
    [("text", .text text), ("error", .text error.message)]

/-- Whether a log that goes down to `threshold` keeps an event. -/
def passes (threshold : Level) (event : Event) : Bool :=
  event.level.depth ≤ threshold.depth

end Event

end Captions
