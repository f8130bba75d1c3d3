/-! # Decimal numbers

Natural numbers written with ASCII digits.
-/

namespace Captions.Text

/-- The number written with ASCII digits, of which there is at least one. -/
def decimal? (digits : List Char) : Option Nat :=
  if digits ≠ [] ∧ digits.all Char.isDigit then some (Nat.ofDigitChars 10 digits 0) else none

/-- Reads the digits at the head of a text as a number; gives what follows them
too. -/
def takeDecimal? (text : List Char) : Option (Nat × List Char) :=
  (decimal? (text.takeWhile Char.isDigit)).map (·, text.dropWhile Char.isDigit)

theorem isDigit_of_mem_toString {n : Nat} {c : Char} (h : c ∈ (toString n).toList) :
    c.isDigit := by
  rw [Nat.toString_eq_repr, Nat.toList_repr] at h
  exact Nat.isDigit_of_mem_toDigits (by decide) (by decide) h

/-- A written number is read back. -/
theorem decimal?_toString (n : Nat) : decimal? (toString n).toList = some n := by
  have digits : (toString n).toList.all Char.isDigit :=
    List.all_eq_true.mpr fun _ => isDigit_of_mem_toString
  rw [decimal?, if_pos ⟨by simp, digits⟩, Nat.toString_eq_repr, Nat.toList_repr,
    Nat.ofDigitChars_ten_toDigits]

/-- A number ends where no digit follows. -/
theorem takeDecimal?_append (n : Nat) (rest : List Char)
    (h : ∀ c ∈ rest.head?, ¬ c.isDigit) :
    takeDecimal? ((toString n).toList ++ rest) = some (n, rest) := by
  have digits : ∀ c ∈ (toString n).toList, c.isDigit := fun _ => isDigit_of_mem_toString
  have stop : rest.takeWhile Char.isDigit = [] ∧ rest.dropWhile Char.isDigit = rest := by
    cases rest with
    | nil => simp
    | cons c rest => simp [h c (by simp)]
  rw [takeDecimal?, List.takeWhile_append_of_pos digits, List.dropWhile_append_of_pos digits,
    stop.1, stop.2, List.append_nil, decimal?_toString, Option.map_some]

end Captions.Text
