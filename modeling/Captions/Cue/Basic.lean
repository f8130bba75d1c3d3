import Captions.Duration
import Captions.Placement

/-! # Cues

A cue is a caption together with the times at which it appears and disappears
and, if the author chose, a placement and the name of a colour.
-/

namespace Captions

/-- One timed caption, with times in milliseconds. Placement and colour are given
together or not at all; the name of the colour is kept as the author wrote it. -/
structure Cue where
  showAt : Nat
  hideAt : Nat
  text : String
  placement : Option Placement
  color : Option String
deriving DecidableEq, Repr

/-- Why a line is not a cue. -/
inductive CueError where
  /-- The line has fewer than two time codes. -/
  | missingTimecode (found : Nat)
  /-- The caption would disappear before it appears. -/
  | hideBeforeShow (showAt hideAt : Nat)
  /-- No words are left to show. -/
  | emptyText
  /-- The bracket names a placement that does not exist. -/
  | unknownPlacement (name : String)
deriving DecidableEq, Repr

/-- The text for a placement that does not exist. -/
def Placement.unknownMessage (name : String) : String :=
  "unknown placement '" ++ name ++ "'"

/-- The reason as shown to the user. -/
def CueError.message : CueError → String
  | missingTimecode found => "expected two time tokens (MM:SS), found " ++ toString found
  | hideBeforeShow showAt hideAt =>
    "hide time " ++ Duration.describe hideAt ++ " is earlier than show time "
      ++ Duration.describe showAt
  | emptyText => "no display text"
  | unknownPlacement name => Placement.unknownMessage name

/-- A line that is not a cue, with the reason. -/
structure MalformedCue where
  line : String
  reason : CueError
deriving DecidableEq, Repr

/-- The complaint about a line that is not a cue. -/
def MalformedCue.message (error : MalformedCue) : String :=
  "malformed cue: '" ++ error.line ++ "'"

end Captions
