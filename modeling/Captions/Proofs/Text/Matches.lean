/-! # Matches of a pattern in a text

A pattern is searched from left to right: the first match is the one that starts
first, the longest if several start there, and the search goes on behind it. Which
matches there are depends on the pattern and the text alone.
-/

namespace Captions.Text

/-- Some part of a text fits a pattern. -/
def Occurs (pattern : List Char → Prop) (text : List Char) : Prop :=
  ∃ before token after, text = before ++ token ++ after ∧ pattern token

/-- The text starts with something that fits a pattern. -/
def StartsWith (pattern : List Char → Prop) (text : List Char) : Prop :=
  ∃ token after, text = token ++ after ∧ pattern token

/-- A text cut at the first match of a pattern. -/
structure FirstMatch (pattern : List Char → Prop) (text before token after : List Char) :
    Prop where
  text_eq : text = before ++ token ++ after
  fits : pattern token
  leftmost : ∀ earlier other rest, text = earlier ++ other ++ rest → pattern other →
    before.length ≤ earlier.length
  longest : ∀ other rest, text = before ++ other ++ rest → pattern other →
    other.length ≤ token.length

/-- The matches of a pattern in a text from left to right, none overlapping another. -/
inductive Matches (pattern : List Char → Prop) : List Char → List (List Char) → Prop
  | none {text : List Char} (hnone : ¬ Occurs pattern text) : Matches pattern text []
  | next {text before token after : List Char} {tokens : List (List Char)}
      (hfirst : FirstMatch pattern text before token after)
      (hrest : Matches pattern after tokens) : Matches pattern text (token :: tokens)

variable {pattern : List Char → Prop} {text before token after : List Char}

namespace FirstMatch

theorem occurs (hfirst : FirstMatch pattern text before token after) : Occurs pattern text :=
  ⟨before, token, after, hfirst.text_eq, hfirst.fits⟩

theorem unique (hfirst : FirstMatch pattern text before token after)
    {before' token' after' : List Char}
    (hother : FirstMatch pattern text before' token' after') :
    before = before' ∧ token = token' ∧ after = after' := by
  have hstart : before.length = before'.length :=
    Nat.le_antisymm (hfirst.leftmost _ _ _ hother.text_eq hother.fits)
      (hother.leftmost _ _ _ hfirst.text_eq hfirst.fits)
  have heq := hfirst.text_eq.symm.trans hother.text_eq
  rw [List.append_assoc, List.append_assoc] at heq
  obtain ⟨rfl, htail⟩ := List.append_inj heq hstart
  have hlength : token.length = token'.length :=
    Nat.le_antisymm (hother.longest _ _ hfirst.text_eq hfirst.fits)
      (hfirst.longest _ _ hother.text_eq hother.fits)
  obtain ⟨rfl, rfl⟩ := List.append_inj htail hlength
  exact ⟨rfl, rfl, rfl⟩

/-- What a text starts with is its first match if nothing longer there fits. -/
theorem head (hfits : pattern token)
    (hlongest : ∀ other rest, token ++ after = other ++ rest → pattern other →
      other.length ≤ token.length) :
    FirstMatch pattern (token ++ after) [] token after where
  text_eq := rfl
  fits := hfits
  leftmost := fun _ _ _ _ _ => Nat.zero_le _
  longest := hlongest

/-- A character in front of a text changes nothing unless something fits from there. -/
theorem cons {c : Char} (hfirst : FirstMatch pattern text before token after)
    (hstart : ¬ StartsWith pattern (c :: text)) :
    FirstMatch pattern (c :: text) (c :: before) token after where
  text_eq := by rw [hfirst.text_eq]; rfl
  fits := hfirst.fits
  leftmost := by
    intro earlier other rest heq hfits
    cases earlier with
    | nil => exact absurd ⟨other, rest, heq, hfits⟩ hstart
    | cons d earlier =>
        have htext : text = earlier ++ other ++ rest := (List.cons.inj heq).2
        exact Nat.succ_le_succ (hfirst.leftmost _ _ _ htext hfits)
  longest := by
    intro other rest heq hfits
    exact hfirst.longest other rest (List.cons.inj heq).2 hfits

end FirstMatch

theorem not_occurs_cons {c : Char} (hnone : ¬ Occurs pattern text)
    (hstart : ¬ StartsWith pattern (c :: text)) : ¬ Occurs pattern (c :: text) := by
  rintro ⟨before, token, after, heq, hfits⟩
  cases before with
  | nil => exact hstart ⟨token, after, heq, hfits⟩
  | cons d before => exact hnone ⟨before, token, after, (List.cons.inj heq).2, hfits⟩

namespace Matches

theorem cons {c : Char} {tokens : List (List Char)} (hmatches : Matches pattern text tokens)
    (hstart : ¬ StartsWith pattern (c :: text)) : Matches pattern (c :: text) tokens := by
  cases hmatches with
  | none hnone => exact .none (not_occurs_cons hnone hstart)
  | next hfirst hrest => exact .next (hfirst.cons hstart) hrest

/-- A pattern has only one list of matches in a text. -/
theorem unique {tokens others : List (List Char)} (hmatches : Matches pattern text tokens)
    (hothers : Matches pattern text others) : tokens = others := by
  induction hmatches generalizing others with
  | none hnone =>
      cases hothers with
      | none => rfl
      | next hfirst => exact absurd hfirst.occurs hnone
  | next hfirst _ ih =>
      cases hothers with
      | none hnone => exact absurd hfirst.occurs hnone
      | next hother hrest =>
          obtain ⟨_, rfl, rfl⟩ := hfirst.unique hother
          rw [ih hrest]

end Matches

end Captions.Text
