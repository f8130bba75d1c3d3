import Captions.Timecode
import Captions.Text.Words
import Captions.Cue.Basic
import Captions.Cue.Bracket

/-! # Reading cues

A cue line such as `00:05 01:00 [Top, Red] Hello World` is searched for its
parts rather than read from left to right: the first two time codes are the
times, the first bracket gives placement and colour, and all words outside the
bracket are the text. The parts may stand in any order, with anything between
them.
-/

namespace Captions

namespace Cue

/-- The words to show: those before the bracket of a line and those after it. -/
def displayWords (line : List Char) : List (List Char) :=
  match Bracket.cut? line with
  | some cut => Text.words cut.before ++ Text.words cut.after
  | none => Text.words line

/-- Reads placement and colour from the bracket of a line, if it has one. -/
def styleOf (line : List Char) : Except CueError (Option (Placement × String)) :=
  match Bracket.cut? line with
  | none => .ok none
  | some cut =>
    let name := String.ofList cut.bracket.placement
    match Placement.ofName? name with
    | some placement => .ok (some (placement, String.ofList cut.bracket.color))
    | none => .error (.unknownPlacement name)

/-- Reads a cue from the characters of a line. Missing times are reported before
times in the wrong order, these before missing text, and that before an unknown
placement. -/
def ofChars (line : List Char) : Except CueError Cue :=
  match (Timecode.scan line).map Timecode.offset with
  | showAt :: hideAt :: _ =>
    if hideAt < showAt then .error (.hideBeforeShow showAt hideAt)
    else if displayWords line = [] then .error .emptyText
    else
      match styleOf line with
      | .error reason => .error reason
      | .ok style =>
        .ok {
          showAt
          hideAt
          text := String.ofList (Text.unwords (displayWords line))
          placement := style.map Prod.fst
          color := style.map Prod.snd }
  | times => .error (.missingTimecode times.length)

/-- Reads a cue line; an error carries the line unchanged. -/
def parse (line : String) : Except MalformedCue Cue :=
  match ofChars line.toList with
  | .ok cue => .ok cue
  | .error reason => .error ⟨line, reason⟩

end Cue

end Captions
