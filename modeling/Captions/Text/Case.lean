/-! # Names without regard to case

Names are compared up to the case of their ASCII letters; other characters must
agree exactly.
-/

namespace Captions.Text

/-- Whether two names differ at most in the case of ASCII letters. -/
def sameName (a b : String) : Bool :=
  a.toList.map Char.toLower == b.toList.map Char.toLower

end Captions.Text
