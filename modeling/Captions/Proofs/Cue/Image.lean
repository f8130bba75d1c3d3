import Captions.Proofs.Cue.Meaning
import Captions.Proofs.Cue.RoundTrip
import Captions.Proofs.Text.Spacing

/-! # The cues that can be written

What the fields of a cue tell about the line it was read from, and which cues are read from a line
at all: a condition on the fields alone decides it.
-/

namespace Captions.Cue

/-- What can be said of the fields of a cue without its line. -/
structure IsWritable (cue : Cue) : Prop where
  showAt_le_hideAt : cue.showAt ≤ cue.hideAt
  hideAt_le : cue.hideAt ≤ 6039 * 1000
  showAt_whole : cue.showAt % 1000 = 0
  hideAt_whole : cue.hideAt % 1000 = 0
  text : Text.IsSpaced cue.text.toList
  style : cue.placement.isSome ↔ cue.color.isSome
  placement : cue.placement ≠ some .centered
  color : ∀ color ∈ cue.color, Text.IsWord color.toList

theorem IsWritable.wellFormed {cue : Cue} (hcue : cue.IsWritable) : cue.WellFormed := by
  refine ⟨hcue.showAt_le_hideAt, hcue.hideAt_le, hcue.showAt_whole, hcue.hideAt_whole,
    Text.isSpaced_iff.mp hcue.text, ?_⟩
  have hstyle := hcue.style
  cases hplacement : cue.placement with
  | none =>
      rw [hplacement, Option.isSome_none, Bool.false_eq_true, false_iff, Option.not_isSome_iff_eq_none]
        at hstyle
      exact .inl ⟨rfl, hstyle⟩
  | some placement =>
      rw [hplacement] at hstyle
      obtain ⟨color, hcolor⟩ := Option.isSome_iff_exists.mp (hstyle.mp rfl)
      refine .inr ⟨placement, color, rfl, ?_, hcolor, hcue.color color hcolor⟩
      rintro rfl
      exact hcue.placement hplacement

theorem WellFormed.isWritable {cue : Cue} (hcue : cue.WellFormed) : cue.IsWritable := by
  obtain ⟨horder, hlast, hshow, hhide, hwords, hstyle⟩ := hcue
  have htext := Text.isSpaced_iff.mpr hwords
  rcases hstyle with ⟨hplacement, hcolor⟩ | ⟨placement, color, hplacement, hnamed, hcolor, hword⟩
  · exact ⟨horder, hlast, hshow, hhide, htext, by simp [hplacement, hcolor], by simp [hplacement],
      by simp [hcolor]⟩
  · exact ⟨horder, hlast, hshow, hhide, htext, by simp [hplacement, hcolor],
      by simpa [hplacement] using hnamed, by simpa [hcolor] using hword⟩

/-- A cue whose fields agree is read from its canonical line. -/
theorem exists_parse {cue : Cue} (hcue : cue.WellFormed) : ∃ line, parse line = .ok cue := by
  obtain ⟨first, second, _, hshow, _, hhide⟩ := hcue.exists_codes
  exact ⟨cue.canonicalLine first second, parse_canonicalLine hcue hshow hhide⟩

/-- The text of a cue has the letters of its line outside the bracket. -/
theorem exists_splits_filter_text {line : String} {cue : Cue} (hparse : parse line = .ok cue) :
    ∃ names before after, Splits line.toList names before after ∧
      cue.text.toList.filter (· ≠ ' ') = (before ++ after).filter Char.isAlpha := by
  rw [parse_eq_ok_iff, ofChars_eq_ok_iff] at hparse
  obtain ⟨_, _, _, _, _, _, _, _, rfl⟩ := hparse
  obtain ⟨names, before, after, hsplits⟩ := exists_splits line.toList
  refine ⟨names, before, after, hsplits, ?_⟩
  rw [String.toList_ofList, Text.filter_unwords fun word hmem => isWord_of_mem_displayWords hmem,
    hsplits.displayWords_eq, List.flatten_append, Text.flatten_words, Text.flatten_words,
    List.filter_append]

/-- A cue is read from some line exactly if its fields agree, and no letter of the line outside the
bracket is lost on the way, or written twice, or moved. -/
theorem parse_onto_writable (cue : Cue) :
    ((∃ line, parse line = .ok cue) ↔ cue.IsWritable) ∧
      ∀ line, parse line = .ok cue → ∃ names before after, Splits line.toList names before after ∧
        cue.text.toList.filter (· ≠ ' ') = (before ++ after).filter Char.isAlpha := by
  refine ⟨⟨?_, fun hcue => exists_parse hcue.wellFormed⟩,
    fun line hparse => exists_splits_filter_text hparse⟩
  rintro ⟨line, hparse⟩
  exact (wellFormed_of_parse hparse).isWritable

theorem parse_onto_writable_lowered_placement :
    parse "a99:99b [c, d e[lefT, Mauve]f, 99:99é" =
        .ok ⟨6039000, 6039000, "a b c d e f", some .left, some "Mauve"⟩ ∧
      (∃ names before after, Splits "a99:99b [c, d e[lefT, Mauve]f, 99:99é".toList names before after ∧
        "a b c d e f".toList.filter (· ≠ ' ') = (before ++ after).filter Char.isAlpha) ∧
      ∃ line, parse line = .ok ⟨0, 0, "Bye", none, none⟩ := by
  have hparse : parse "a99:99b [c, d e[lefT, Mauve]f, 99:99é" =
      .ok ⟨6039000, 6039000, "a b c d e f", some .left, some "Mauve"⟩ := rfl
  have hword : Text.IsWord "Bye".toList := ⟨by decide, List.all_eq_true.mp (by decide)⟩
  refine ⟨hparse, (parse_onto_writable _).2 _ hparse, (parse_onto_writable _).1.mpr ?_⟩
  exact ⟨by decide, by decide, by decide, by decide, hword.isSpaced, by decide, by decide,
    by decide⟩

end Captions.Cue
