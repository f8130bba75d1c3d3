/-! # Words

A word is a maximal run of ASCII letters. Everything else, letters of other
scripts included, only separates words.
-/

namespace Captions.Text

/-- The words of a text from left to right. -/
def words : List Char → List (List Char)
  | [] => []
  | c :: rest =>
    if c.isAlpha then
      if rest.head?.any Char.isAlpha then (words rest).modifyHead (c :: ·)
      else [c] :: words rest
    else words rest

/-- Words put side by side with one space between neighbours. -/
def unwords (ws : List (List Char)) : List Char :=
  List.intercalate [' '] ws

@[simp] theorem unwords_nil : unwords [] = [] := rfl

theorem words_eq_nil_iff (text : List Char) : words text = [] ↔ ∀ c ∈ text, ¬ c.isAlpha := by
  induction text with
  | nil => simp [words]
  | cons c rest ih =>
      simp only [words]
      split
      next h =>
        split
        next hrest =>
          cases rest with
          | nil => simp at hrest
          | cons d tail => simp_all
        next => simp [h]
      next h => simp [h, ih]

end Captions.Text
