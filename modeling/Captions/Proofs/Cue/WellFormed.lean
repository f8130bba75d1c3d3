import Captions.Cue.Parser
import Captions.Proofs.Cue.Bracket
import Captions.Proofs.Timecode

/-! # Well-formed cues

What every cue has that was read from a line: whole seconds that a time code can
name, in order; words to show; and either both a placement and a colour, or
neither.
-/

namespace Captions

namespace Placement

theorem ne_centered_of_ofName? {name : String} {placement : Placement}
    (h : ofName? name = some placement) : placement ≠ centered := by
  rintro rfl
  have hmem := List.mem_of_find?_eq_some h
  simp [named] at hmem

/-- Every placement but the centre is found under its own name. -/
theorem ofName?_name {placement : Placement} (h : placement ≠ centered) :
    ofName? placement.name = some placement := by
  cases placement with
  | centered => exact absurd rfl h
  | top | bottom | left | right => decide

end Placement

namespace Cue

/-- What a line promises about its cue. -/
structure WellFormed (cue : Cue) : Prop where
  showAt_le_hideAt : cue.showAt ≤ cue.hideAt
  hideAt_le : cue.hideAt ≤ 6039000
  showAt_whole : cue.showAt % 1000 = 0
  hideAt_whole : cue.hideAt % 1000 = 0
  text_words : ∃ ws, ws ≠ [] ∧ (∀ word ∈ ws, Text.IsWord word) ∧ cue.text.toList = Text.unwords ws
  style : (cue.placement = none ∧ cue.color = none) ∨
    ∃ placement color, cue.placement = some placement ∧ placement ≠ .centered ∧
      cue.color = some color ∧ Text.IsWord color.toList

/-- A line is a cue if it has two times in order, words to show, and no bracket
with an unknown placement. -/
theorem ofChars_eq_ok_iff {line : List Char} {cue : Cue} :
    ofChars line = .ok cue ↔ ∃ first second others style,
      Timecode.scan line = first :: second :: others ∧ first.offset ≤ second.offset ∧
      displayWords line ≠ [] ∧ styleOf line = .ok style ∧
      cue = ⟨first.offset, second.offset, String.ofList (Text.unwords (displayWords line)),
        style.map Prod.fst, style.map Prod.snd⟩ := by
  constructor
  · intro h
    unfold ofChars at h
    split at h
    next showAt hideAt _ htimes =>
      split at h
      next => cases h
      next horder =>
        split at h
        next => cases h
        next hwords =>
          split at h
          next => cases h
          next style hstyle =>
            cases h
            obtain ⟨first, tail, hscan, rfl, htail⟩ := List.map_eq_cons_iff.mp htimes
            obtain ⟨second, others, rfl, rfl, _⟩ := List.map_eq_cons_iff.mp htail
            exact ⟨first, second, others, style, hscan, Nat.le_of_not_lt horder, hwords,
              hstyle, rfl⟩
    next => cases h
  · rintro ⟨first, second, others, style, hscan, horder, hwords, hstyle, rfl⟩
    simp only [ofChars, hscan, List.map_cons, hstyle, if_neg hwords,
      if_neg (Nat.not_lt_of_le horder)]

theorem parse_eq_ok_iff {line : String} {cue : Cue} :
    parse line = .ok cue ↔ ofChars line.toList = .ok cue := by
  unfold parse
  split
  next found hfound => simp [hfound]
  next reason hreason => simp [hreason]

theorem isWord_of_mem_displayWords {line word : List Char} (hmem : word ∈ displayWords line) :
    Text.IsWord word := by
  unfold displayWords at hmem
  split at hmem
  next =>
    rcases List.mem_append.mp hmem with hmem | hmem
    · exact Text.isWord_of_mem_words hmem
    · exact Text.isWord_of_mem_words hmem
  next => exact Text.isWord_of_mem_words hmem

/-- A style that was read names a placement other than the centre, and its colour
is a word. -/
theorem styleOf_eq_some {line : List Char} {placement : Placement} {color : String}
    (h : styleOf line = .ok (some (placement, color))) :
    placement ≠ .centered ∧ Text.IsWord color.toList := by
  unfold styleOf at h
  split at h
  next => cases h
  next cut hcut =>
    dsimp only at h
    split at h
    next found hfound =>
      cases h
      refine ⟨Placement.ne_centered_of_ofName? hfound, ?_⟩
      rw [String.toList_ofList]
      exact (Bracket.isWord_of_cut? hcut).2
    next => cases h

/-- Every cue that is read from a line is well-formed. -/
theorem wellFormed_of_parse {line : String} {cue : Cue} (h : parse line = .ok cue) :
    cue.WellFormed := by
  rw [parse_eq_ok_iff, ofChars_eq_ok_iff] at h
  obtain ⟨first, second, others, style, _, horder, hwords, hstyle, rfl⟩ := h
  refine ⟨horder, second.offset_le, first.offset_mod_thousand, second.offset_mod_thousand,
    ⟨_, hwords, fun word hmem => isWord_of_mem_displayWords hmem, String.toList_ofList⟩, ?_⟩
  cases style with
  | none => exact .inl ⟨rfl, rfl⟩
  | some style =>
      obtain ⟨placement, color⟩ := style
      obtain ⟨hplacement, hcolor⟩ := styleOf_eq_some hstyle
      exact .inr ⟨placement, color, rfl, hplacement, rfl, hcolor⟩

end Cue

end Captions
