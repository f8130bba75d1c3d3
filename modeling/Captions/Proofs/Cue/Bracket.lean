import Captions.Cue.Bracket
import Captions.Proofs.Text.Words
import Mathlib.Data.List.TakeWhile

/-! # Finding the bracket of a line

A bracket starts at an opening bracket and nowhere else, so the first one that is
written in a line is the one that is found. It is the first match of the pattern of two
words with a comma and a space between them, in brackets.
-/

namespace Captions.Bracket

theorem take?_eq_none_of_ne {c : Char} (hc : c ≠ '[') (rest : List Char) :
    take? (c :: rest) = none := by
  unfold take?
  split
  next heq => exact absurd (List.cons.inj heq).1 hc
  next => rfl

/-- A bracket is read at the head of a line exactly if it is written there. -/
theorem take?_eq_some_iff {line after : List Char} {bracket : Bracket} :
    take? line = some (bracket, after) ↔
      Text.IsWord bracket.placement ∧ Text.IsWord bracket.color ∧
        line = bracket.toChars ++ after := by
  constructor
  · intro h
    unfold take? at h
    split at h
    next rest =>
      split at h
      next second hfirst =>
        split at h
        next hsecond =>
          dsimp only at h
          split at h
          next => cases h
          next hnames =>
            cases h
            obtain ⟨hplacement, hcolor⟩ := not_or.mp hnames
            have hrest := (rest.takeWhile_append_dropWhile (p := Char.isAlpha)).symm
            have hnext := (second.takeWhile_append_dropWhile (p := Char.isAlpha)).symm
            rw [hfirst] at hrest
            rw [hsecond] at hnext
            refine ⟨⟨hplacement, fun c hc => List.mem_takeWhile_imp hc⟩,
              ⟨hcolor, fun c hc => List.mem_takeWhile_imp hc⟩, ?_⟩
            calc '[' :: rest
                = '[' :: (rest.takeWhile Char.isAlpha ++
                    ',' :: ' ' :: (second.takeWhile Char.isAlpha ++ ']' :: after)) := by
                  rw [← hnext, ← hrest]
              _ = _ := by simp [toChars]
        next => cases h
      next => cases h
    next => cases h
  · rintro ⟨hplacement, hcolor, rfl⟩
    exact take?_toChars bracket after hplacement hcolor

theorem isWord_of_cut? {line : List Char} {cut : Cut} (h : cut? line = some cut) :
    Text.IsWord cut.bracket.placement ∧ Text.IsWord cut.bracket.color := by
  induction line generalizing cut with
  | nil => simp [cut?] at h
  | cons c rest ih =>
      rw [cut?] at h
      split at h
      next bracket after htake =>
        cases h
        obtain ⟨hplacement, hcolor, _⟩ := take?_eq_some_iff.mp htake
        exact ⟨hplacement, hcolor⟩
      next =>
        obtain ⟨inner, hinner, hcut⟩ := Option.map_eq_some_iff.mp h
        subst hcut
        exact @ih inner hinner

/-- The search for a bracket passes over what holds no opening bracket. -/
theorem cut?_append {before : List Char} (hbefore : '[' ∉ before) (rest : List Char) :
    cut? (before ++ rest) =
      (cut? rest).map fun cut => { cut with before := before ++ cut.before } := by
  induction before with
  | nil => simp
  | cons c before ih =>
      obtain ⟨hc, hbefore⟩ := not_or.mp (List.mem_cons.not.mp hbefore)
      rw [List.cons_append, cut?, take?_eq_none_of_ne (Ne.symm hc), ih hbefore, Option.map_map]
      rfl

/-- A line without an opening bracket has no bracket. -/
theorem cut?_eq_none {line : List Char} (h : '[' ∉ line) : cut? line = none := by
  have hcut := cut?_append h []
  rw [List.append_nil] at hcut
  exact hcut

theorem cut?_toChars_append (bracket : Bracket) (hplacement : Text.IsWord bracket.placement)
    (hcolor : Text.IsWord bracket.color) (after : List Char) :
    cut? (bracket.toChars ++ after) = some ⟨[], bracket, after⟩ := by
  have htake := take?_toChars bracket after hplacement hcolor
  rw [show bracket.toChars ++ after = '[' :: (bracket.placement ++
    ',' :: ' ' :: bracket.color ++ [']'] ++ after) from rfl] at *
  rw [cut?, htake]

/-- The first bracket of a line is found where it is written. -/
theorem cut?_append_toChars {before : List Char} (hbefore : '[' ∉ before) (bracket : Bracket)
    (hplacement : Text.IsWord bracket.placement) (hcolor : Text.IsWord bracket.color)
    (after : List Char) :
    cut? (before ++ (bracket.toChars ++ after)) = some ⟨before, bracket, after⟩ := by
  rw [cut?_append hbefore, cut?_toChars_append bracket hplacement hcolor, Option.map_some,
    List.append_nil]

/-- A bracket as it is written, with a word for each of the two names. -/
def IsToken (token : List Char) : Prop :=
  ∃ placement color, Text.IsWord placement ∧ Text.IsWord color ∧
    token = (⟨placement, color⟩ : Bracket).toChars

/-- No two brackets start in the same place. -/
theorem firstMatch_of_take? {line after : List Char} {bracket : Bracket}
    (h : take? line = some (bracket, after)) :
    Text.FirstMatch IsToken line [] bracket.toChars after := by
  obtain ⟨hplacement, hcolor, rfl⟩ := take?_eq_some_iff.mp h
  refine .head ⟨_, _, hplacement, hcolor, rfl⟩ ?_
  rintro other rest heq ⟨placement, color, hplacement', hcolor', rfl⟩
  have hother := take?_eq_some_iff.mpr ⟨hplacement', hcolor', heq⟩
  rw [h] at hother
  cases hother
  exact Nat.le_refl _

theorem eq_of_toChars_eq {bracket other : Bracket} (hplacement : Text.IsWord bracket.placement)
    (hcolor : Text.IsWord bracket.color) (hplacement' : Text.IsWord other.placement)
    (hcolor' : Text.IsWord other.color) (h : bracket.toChars = other.toChars) :
    bracket = other := by
  have htake := take?_toChars bracket [] hplacement hcolor
  rw [h, take?_toChars other [] hplacement' hcolor'] at htake
  cases htake
  rfl

theorem not_startsWith_of_take? {line : List Char} (h : take? line = none) :
    ¬ Text.StartsWith IsToken line := by
  rintro ⟨_, after, heq, placement, color, hplacement, hcolor, rfl⟩
  have htake := take?_eq_some_iff.mpr ⟨hplacement, hcolor, heq⟩
  rw [h] at htake
  cases htake

/-- A line is cut at the first match of the pattern. -/
theorem firstMatch_of_cut? {line : List Char} {cut : Cut} (h : cut? line = some cut) :
    Text.FirstMatch IsToken line cut.before cut.bracket.toChars cut.after := by
  induction line generalizing cut with
  | nil => cases h
  | cons c rest ih =>
      rw [cut?] at h
      split at h
      next bracket after htake =>
        cases h
        exact firstMatch_of_take? htake
      next htake =>
        obtain ⟨inner, hinner, rfl⟩ := Option.map_eq_some_iff.mp h
        exact (ih hinner).cons (not_startsWith_of_take? htake)

theorem not_occurs_of_cut? {line : List Char} (h : cut? line = none) :
    ¬ Text.Occurs IsToken line := by
  induction line with
  | nil =>
      rintro ⟨before, _, after, heq, placement, color, _, _, rfl⟩
      simp [toChars] at heq
  | cons c rest ih =>
      rw [cut?] at h
      split at h
      next => cases h
      next htake =>
        exact Text.not_occurs_cons (ih (Option.map_eq_none_iff.mp h))
          (not_startsWith_of_take? htake)

end Captions.Bracket
