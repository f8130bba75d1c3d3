/-! # Brackets

A bracket is written `[Placement, Color]`: two runs of ASCII letters, separated
by exactly one comma and one space. Anything looser is ordinary text. A line has
at most one bracket, the first that occurs in it.
-/

namespace Captions

/-- The two names between the brackets, as written. -/
structure Bracket where
  placement : List Char
  color : List Char
deriving DecidableEq, Repr

/-- A line cut at its bracket. -/
structure Bracket.Cut where
  before : List Char
  bracket : Bracket
  after : List Char
deriving DecidableEq, Repr

namespace Bracket

/-- Reads a bracket at the head of a line; gives what follows it too. -/
def take? : List Char → Option (Bracket × List Char)
  | '[' :: rest =>
    match rest.dropWhile Char.isAlpha with
    | ',' :: ' ' :: second =>
      match second.dropWhile Char.isAlpha with
      | ']' :: after =>
        let bracket := ⟨rest.takeWhile Char.isAlpha, second.takeWhile Char.isAlpha⟩
        if bracket.placement = [] ∨ bracket.color = [] then none else some (bracket, after)
      | _ => none
    | _ => none
  | _ => none

/-- Cuts a line at its first bracket. -/
def cut? : List Char → Option Cut
  | [] => none
  | c :: rest =>
    match take? (c :: rest) with
    | some (bracket, after) => some ⟨[], bracket, after⟩
    | none => (cut? rest).map fun cut => { cut with before := c :: cut.before }

/-- The characters of a bracket. -/
def toChars (bracket : Bracket) : List Char :=
  '[' :: bracket.placement ++ ',' :: ' ' :: bracket.color ++ [']']

/-- A bracket with two names in it is read back, with what follows it. -/
theorem take?_toChars (bracket : Bracket) (rest : List Char)
    (hp : bracket.placement ≠ [] ∧ ∀ c ∈ bracket.placement, c.isAlpha)
    (hc : bracket.color ≠ [] ∧ ∀ c ∈ bracket.color, c.isAlpha) :
    take? (bracket.toChars ++ rest) = some (bracket, rest) := by
  obtain ⟨placement, color⟩ := bracket
  have hcomma : ¬ (',').isAlpha := by decide
  have hclose : ¬ (']').isAlpha := by decide
  simp_all [take?, toChars, List.dropWhile_append_of_pos, List.takeWhile_append_of_pos]

end Bracket

end Captions
