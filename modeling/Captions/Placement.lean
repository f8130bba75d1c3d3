import Captions.Text.Case

/-! # Placements

The five places in the frame where a text can stand. Four of them have a name
that a cue may use; the centre is where a text goes that names no place.
-/

namespace Captions

/-- A place in the frame. -/
inductive Placement where
  | centered
  | top
  | bottom
  | left
  | right
deriving DecidableEq, Repr

namespace Placement

/-- The name of a placement as it is printed. -/
def name : Placement → String
  | centered => "Centered"
  | top => "Top"
  | bottom => "Bottom"
  | left => "Left"
  | right => "Right"

/-- The placements that can be asked for by name. -/
def named : List Placement :=
  [top, bottom, left, right]

/-- The placement of a given name, whatever the case of its ASCII letters. -/
def ofName? (name : String) : Option Placement :=
  named.find? fun placement => Text.sameName placement.name name

end Placement

end Captions
