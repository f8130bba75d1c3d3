import Captions.Text.Case

/-! # Colours

The sixteen colours of a terminal palette, their names and their numbers.
-/

namespace Captions

/-- A colour of the palette. -/
inductive Color where
  | black
  | red
  | green
  | yellow
  | blue
  | magenta
  | cyan
  | white
  | grey
  | darkRed
  | darkGreen
  | darkYellow
  | darkBlue
  | darkMagenta
  | darkCyan
  | darkGrey
deriving DecidableEq, Repr

namespace Color

/-- Every colour once. -/
def all : List Color :=
  [black, red, green, yellow, blue, magenta, cyan, white, grey, darkRed, darkGreen, darkYellow,
    darkBlue, darkMagenta, darkCyan, darkGrey]

/-- The name of a colour. -/
def name : Color → String
  | black => "Black"
  | red => "Red"
  | green => "Green"
  | yellow => "Yellow"
  | blue => "Blue"
  | magenta => "Magenta"
  | cyan => "Cyan"
  | white => "White"
  | grey => "Grey"
  | darkRed => "DarkRed"
  | darkGreen => "DarkGreen"
  | darkYellow => "DarkYellow"
  | darkBlue => "DarkBlue"
  | darkMagenta => "DarkMagenta"
  | darkCyan => "DarkCyan"
  | darkGrey => "DarkGrey"

/-- The number of a colour in the terminal palette. -/
def paletteIndex : Color → Nat
  | black => 0
  | darkRed => 1
  | darkGreen => 2
  | darkYellow => 3
  | darkBlue => 4
  | darkMagenta => 5
  | darkCyan => 6
  | grey => 7
  | darkGrey => 8
  | red => 9
  | green => 10
  | yellow => 11
  | blue => 12
  | magenta => 13
  | cyan => 14
  | white => 15

/-- The colour of texts that name none, of the border and of erased cells. -/
def default : Color := white

/-- The ways to write the name of a colour, up to case. -/
def spellings : Color → List String
  | grey => ["Grey", "Gray"]
  | darkGrey => ["DarkGrey", "DarkGray"]
  | color => [color.name]

/-- The colour of a given name, whatever the case of its ASCII letters. -/
def ofName? (name : String) : Option Color :=
  all.find? fun color => color.spellings.any fun spelling => Text.sameName spelling name

end Color

end Captions
