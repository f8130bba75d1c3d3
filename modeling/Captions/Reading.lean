import Captions.Cue.Parser
import Captions.Log
import Captions.Text.Blank
import Captions.Text.Lines

/-! # Reading an input

An input is read line by line. Blank lines are passed over, a line that is not a
cue is noted and passed over too, and the first line that cannot be read ends the
reading. Lines are numbered from one, blank ones included.
-/

namespace Captions

/-- A line that was read and is not blank. -/
inductive Entry where
  | accepted (line : Nat) (cue : Cue)
  | rejected (line : Nat) (error : MalformedCue)
deriving DecidableEq, Repr

namespace Entry

/-- What a line of the input is. -/
def ofLine (number : Nat) (line : String) : Entry :=
  match Cue.parse line with
  | .ok cue => accepted number cue
  | .error error => rejected number error

/-- The cue on a line, if it holds one. -/
def cue? : Entry → Option Cue
  | accepted _ cue => some cue
  | rejected .. => none

/-- What is logged about a line. -/
def event : Entry → Event
  | accepted line _ => .acceptedCue line
  | rejected line error => .malformedCue line error

end Entry

/-- The end of a reading at a line that could not be read. -/
structure ReadError where
  line : Nat
  fault : Text.ReadFault
deriving DecidableEq, Repr

namespace ReadError

/-- What failed. -/
def message (error : ReadError) : String :=
  "Failed to read cue line " ++ toString error.line

/-- What failed, then why. -/
def chain (error : ReadError) : List String :=
  [error.message, error.fault.message]

end ReadError

/-- How many lines were cues and how many were not. -/
structure Report where
  accepted : Nat
  rejected : Nat
deriving DecidableEq, Repr

/-- What came of an input: its entries up to the end or to the line that could
not be read. -/
structure Reading where
  entries : List Entry
  failure : Option ReadError
deriving DecidableEq, Repr

namespace Reading

/-- Reads lines of which the first has the given number. -/
def numbered (number : Nat) : List Text.LineRead → Reading
  | [] => ⟨[], none⟩
  | .error fault :: _ => ⟨[], some ⟨number, fault⟩⟩
  | .ok line :: rest =>
    let reading := numbered (number + 1) rest
    if Text.isBlank line then reading
    else { reading with entries := Entry.ofLine number line :: reading.entries }

/-- Reads the lines of an input. -/
def ofLines (lines : List Text.LineRead) : Reading :=
  numbered 1 lines

/-- The cues in the order of their lines. -/
def cues (reading : Reading) : List Cue :=
  reading.entries.filterMap Entry.cue?

/-- The cues and the other lines, counted. -/
def counts (reading : Reading) : Report where
  accepted := reading.cues.length
  rejected := reading.entries.length - reading.cues.length

/-- The counts, or the error that ended the reading. -/
def report (reading : Reading) : Except ReadError Report :=
  match reading.failure with
  | some error => .error error
  | none => .ok reading.counts

/-- What is logged about an input, in order. -/
def events (reading : Reading) : List Event :=
  reading.entries.map Entry.event

end Reading

end Captions
