import Captions.Placement

/-! # What is shown

The record of the texts on a board and of the place of each. A text is recorded
once, at the place where it was last drawn; the entries stay in the order of the
texts by code point.
-/

namespace Captions

/-- Texts with their placements, ordered by text. -/
structure Shown where
  entries : List (String × Placement) := []
deriving DecidableEq, Repr

namespace Shown

/-- Puts an entry into its place among ordered entries, over the one with the
same text if there is one. -/
def insertEntry (text : String) (placement : Placement) :
    List (String × Placement) → List (String × Placement)
  | [] => [(text, placement)]
  | (other, place) :: rest =>
    if text < other then (text, placement) :: (other, place) :: rest
    else if text = other then (text, placement) :: rest
    else (other, place) :: insertEntry text placement rest

/-- Records that a text stands at a placement. -/
def insert (text : String) (placement : Placement) (shown : Shown) : Shown :=
  ⟨insertEntry text placement shown.entries⟩

/-- Removes a text from the record. -/
def erase (text : String) (shown : Shown) : Shown :=
  ⟨shown.entries.filter fun entry => entry.1 ≠ text⟩

/-- Where a text stands, if it is shown. -/
def find? (text : String) (shown : Shown) : Option Placement :=
  (shown.entries.find? fun entry => entry.1 = text).map Prod.snd

/-- Whether a text is shown. -/
def contains (text : String) (shown : Shown) : Bool :=
  (shown.find? text).isSome

/-- The texts shown, in order. -/
def texts (shown : Shown) : List String :=
  shown.entries.map Prod.fst

@[simp] theorem find?_empty (text : String) : find? text {} = none := rfl

theorem find?_insertEntry (text key : String) (placement : Placement)
    (entries : List (String × Placement)) :
    find? key ⟨insertEntry text placement entries⟩ =
      if key = text then some placement else find? key ⟨entries⟩ := by
  induction entries with
  | nil =>
      by_cases h : key = text
      · simp [find?, insertEntry, h]
      · simp [find?, insertEntry, h, Ne.symm h]
  | cons entry rest ih =>
      obtain ⟨other, place⟩ := entry
      simp only [insertEntry]
      split
      next =>
        by_cases h : key = text
        · simp [find?, h]
        · simp [find?, h, Ne.symm h]
      next =>
        split
        next heq =>
          subst heq
          by_cases h : key = text
          · simp [find?, h]
          · simp [find?, h, Ne.symm h]
        next hne =>
          by_cases hother : other = key
          · subst hother
            simp [find?, Ne.symm hne]
          · simpa [find?, List.find?_cons, hother] using ih

/-- After recording a text it stands where it was put, and every other text where
it stood before. -/
@[simp] theorem find?_insert (text key : String) (placement : Placement) (shown : Shown) :
    (shown.insert text placement).find? key =
      if key = text then some placement else shown.find? key :=
  find?_insertEntry text key placement shown.entries

/-- After removing a text it stands nowhere, and every other text where it stood
before. -/
@[simp] theorem find?_erase (text key : String) (shown : Shown) :
    (shown.erase text).find? key = if key = text then none else shown.find? key := by
  by_cases h : key = text
  · subst h
    simp [find?, erase, List.find?_filter]
  · simp only [find?, erase, List.find?_filter, h, if_false]
    congr 2
    funext entry
    by_cases hentry : entry.1 = key
    · simp [hentry, h]
    · simp [hentry]

end Shown

end Captions
