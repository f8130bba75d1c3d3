/-! # Blank text

The characters that show nothing, and lines made of nothing else.
-/

namespace Captions.Text

/-- The code points with the Unicode property `White_Space`, as closed ranges in
increasing order. -/
def blankRanges : List (Nat × Nat) :=
  [(0x9, 0xD), (0x20, 0x20), (0x85, 0x85), (0xA0, 0xA0), (0x1680, 0x1680), (0x2000, 0x200A),
    (0x2028, 0x2029), (0x202F, 0x202F), (0x205F, 0x205F), (0x3000, 0x3000)]

/-- Whether a character is white space. -/
def isBlankChar (c : Char) : Bool :=
  blankRanges.any fun range => range.1 ≤ c.toNat && c.toNat ≤ range.2

/-- Whether a line is empty or holds only white space. -/
def isBlank (line : String) : Bool :=
  line.toList.all isBlankChar

end Captions.Text
