import Captions.Proofs.Cue.WellFormed

/-! # What a cue line means

The meaning of a line is given by where patterns occur in it: its times are the first two
matches of the pattern of a time code, its bracket is the first match of the pattern of a
bracket, and its text is the words before and after the bracket. Every line has one
meaning, a cue or a reason why it is none, and that is what reading the line gives.
-/

namespace Captions

open Text

/-- The word is the name of the placement, whatever the case of its letters. -/
def Placement.IsNamedBy (placement : Placement) (word : List Char) : Prop :=
  placement ∈ named ∧ word.map Char.toLower = placement.name.toList.map Char.toLower

theorem Placement.ofName?_eq_some_iff {placement : Placement} {word : List Char} :
    ofName? (String.ofList word) = some placement ↔ placement.IsNamedBy word := by
  constructor
  · intro h
    have hsame := List.find?_some h
    rw [sameName, beq_iff_eq, String.toList_ofList] at hsame
    exact ⟨List.mem_of_find?_eq_some h, hsame.symm⟩
  · rintro ⟨hmem, hsame⟩
    have hcentered : placement ≠ centered := by
      rintro rfl
      simp [named] at hmem
    have hname : ofName? (String.ofList word) = ofName? placement.name := by
      simp only [ofName?, sameName, String.toList_ofList, hsame]
    rw [hname, ofName?_name hcentered]

namespace Cue

/-- The first two times of a line. -/
def Times (line : List Char) (showAt hideAt : Nat) : Prop :=
  ∃ first second others, Matches Timecode.IsToken line (first :: second :: others) ∧
    showAt = Timecode.tokenOffset first ∧ hideAt = Timecode.tokenOffset second

/-- A line is split at its first bracket, which holds two words. A line without a bracket
stands before it as a whole. -/
inductive Splits (line : List Char) : Option (List Char × List Char) → List Char → List Char → Prop
  | bracket {placement color before after : List Char} (hplacement : IsWord placement)
      (hcolor : IsWord color)
      (hfirst : FirstMatch Bracket.IsToken line before
        (⟨placement, color⟩ : Bracket).toChars after) :
      Splits line (some (placement, color)) before after
  | plain (hnone : ¬ Occurs Bracket.IsToken line) : Splits line none line []

/-- The placement and the colour that the words of a bracket stand for. -/
inductive Styles : Option (List Char × List Char) → Option Placement → Option String → Prop
  | plain : Styles none none none
  | named {word color : List Char} {placement : Placement} (hname : placement.IsNamedBy word) :
      Styles (some (word, color)) (some placement) (some (String.ofList color))

/-- The words of two pieces of a line, joined by single spaces. -/
def IsText (before after : List Char) (text : String) : Prop :=
  ∃ first second, Matches IsWord before first ∧ Matches IsWord after second ∧
    text = String.ofList (List.intercalate [' '] (first ++ second))

/-- What a line means. -/
inductive Means (line : String) : Except MalformedCue Cue → Prop
  | missing {tokens : List (List Char)} (htimes : Matches Timecode.IsToken line.toList tokens)
      (hfew : tokens.length < 2) :
      Means line (.error ⟨line, .missingTimecode tokens.length⟩)
  | backwards {showAt hideAt : Nat} (htimes : Times line.toList showAt hideAt)
      (horder : hideAt < showAt) :
      Means line (.error ⟨line, .hideBeforeShow showAt hideAt⟩)
  | wordless {showAt hideAt : Nat} {names : Option (List Char × List Char)}
      {before after : List Char} (htimes : Times line.toList showAt hideAt)
      (horder : showAt ≤ hideAt) (hsplits : Splits line.toList names before after)
      (hletters : ∀ c ∈ before ++ after, ¬ c.isAlpha) :
      Means line (.error ⟨line, .emptyText⟩)
  | misplaced {showAt hideAt : Nat} {word color before after : List Char}
      (htimes : Times line.toList showAt hideAt) (horder : showAt ≤ hideAt)
      (hsplits : Splits line.toList (some (word, color)) before after)
      (hletter : ∃ c ∈ before ++ after, c.isAlpha)
      (hname : ∀ placement : Placement, ¬ placement.IsNamedBy word) :
      Means line (.error ⟨line, .unknownPlacement (String.ofList word)⟩)
  | cue {showAt hideAt : Nat} {names : Option (List Char × List Char)}
      {before after : List Char} {text : String} {placement : Option Placement}
      {color : Option String} (htimes : Times line.toList showAt hideAt)
      (horder : showAt ≤ hideAt) (hsplits : Splits line.toList names before after)
      (hletter : ∃ c ∈ before ++ after, c.isAlpha) (htext : IsText before after text)
      (hstyle : Styles names placement color) :
      Means line (.ok ⟨showAt, hideAt, text, placement, color⟩)

theorem exists_splits (line : List Char) : ∃ names before after, Splits line names before after := by
  cases hcut : Bracket.cut? line with
  | none => exact ⟨_, _, _, .plain (Bracket.not_occurs_of_cut? hcut)⟩
  | some cut =>
      obtain ⟨hplacement, hcolor⟩ := Bracket.isWord_of_cut? hcut
      exact ⟨_, _, _, .bracket hplacement hcolor (Bracket.firstMatch_of_cut? hcut)⟩

theorem exists_isText (before after : List Char) : ∃ text, IsText before after text :=
  ⟨_, _, _, matches_words before, matches_words after, rfl⟩

/-- Every line means something. -/
theorem exists_means (line : String) : ∃ result, Means line result := by
  have htokens := Timecode.matches_scan line.toList
  generalize (Timecode.scan line.toList).map Timecode.toChars = tokens at htokens
  match tokens, htokens with
  | [], htokens => exact ⟨_, .missing htokens (by simp)⟩
  | [_], htokens => exact ⟨_, .missing htokens (by simp)⟩
  | first :: second :: others, htokens =>
      have htimes : Times line.toList _ _ := ⟨first, second, others, htokens, rfl, rfl⟩
      rcases Nat.lt_or_ge (Timecode.tokenOffset second) (Timecode.tokenOffset first) with
        horder | horder
      · exact ⟨_, .backwards htimes horder⟩
      obtain ⟨names, before, after, hsplits⟩ := exists_splits line.toList
      by_cases hletters : ∀ c ∈ before ++ after, ¬ c.isAlpha
      · exact ⟨_, .wordless htimes horder hsplits hletters⟩
      have hletter : ∃ c ∈ before ++ after, c.isAlpha := by
        simpa only [not_forall, Classical.not_not, exists_prop] using hletters
      obtain ⟨text, htext⟩ := exists_isText before after
      cases names with
      | none => exact ⟨_, .cue htimes horder hsplits hletter htext .plain⟩
      | some names =>
          obtain ⟨word, color⟩ := names
          by_cases hname : ∃ placement : Placement, placement.IsNamedBy word
          · obtain ⟨placement, hname⟩ := hname
            exact ⟨_, .cue htimes horder hsplits hletter htext (.named hname)⟩
          · exact ⟨_, .misplaced htimes horder hsplits hletter (not_exists.mp hname)⟩

variable {line before after : List Char} {names : Option (List Char × List Char)}

theorem eq_map_scan {tokens : List (List Char)} (htokens : Matches Timecode.IsToken line tokens) :
    tokens = (Timecode.scan line).map Timecode.toChars :=
  htokens.unique (Timecode.matches_scan line)

theorem Times.exists_scan {showAt hideAt : Nat} (htimes : Times line showAt hideAt) :
    ∃ others, (Timecode.scan line).map Timecode.offset = showAt :: hideAt :: others := by
  obtain ⟨first, second, others, htokens, rfl, rfl⟩ := htimes
  have hoffsets : (Timecode.scan line).map Timecode.offset =
      ((Timecode.scan line).map Timecode.toChars).map Timecode.tokenOffset := by
    rw [List.map_map]
    exact List.map_congr_left fun code _ => (Timecode.tokenOffset_toChars code).symm
  rw [hoffsets, ← eq_map_scan htokens]
  exact ⟨_, rfl⟩

theorem Splits.cut?_eq {word color : List Char}
    (hsplits : Splits line (some (word, color)) before after) :
    Bracket.cut? line = some ⟨before, ⟨word, color⟩, after⟩ := by
  cases hsplits with
  | bracket hplacement hcolor hfirst =>
      cases hcut : Bracket.cut? line with
      | none => exact absurd hfirst.occurs (Bracket.not_occurs_of_cut? hcut)
      | some cut =>
          obtain ⟨hplacement', hcolor'⟩ := Bracket.isWord_of_cut? hcut
          obtain ⟨rfl, htoken, rfl⟩ := hfirst.unique (Bracket.firstMatch_of_cut? hcut)
          rw [Bracket.eq_of_toChars_eq hplacement hcolor hplacement' hcolor' htoken]

theorem Splits.cut?_eq_none (hsplits : Splits line none before after) :
    Bracket.cut? line = none ∧ before = line ∧ after = [] := by
  cases hsplits with
  | plain hnone =>
      cases hcut : Bracket.cut? line with
      | none => exact ⟨rfl, rfl, rfl⟩
      | some cut => exact absurd (Bracket.firstMatch_of_cut? hcut).occurs hnone

/-- The words to show are those before and after the bracket. -/
theorem Splits.displayWords_eq (hsplits : Splits line names before after) :
    displayWords line = words before ++ words after := by
  cases names with
  | none =>
      obtain ⟨hcut, rfl, rfl⟩ := hsplits.cut?_eq_none
      simp only [displayWords, hcut, words, List.append_nil]
  | some names => simp only [displayWords, hsplits.cut?_eq]

theorem Splits.displayWords_eq_nil_iff (hsplits : Splits line names before after) :
    displayWords line = [] ↔ ∀ c ∈ before ++ after, ¬ c.isAlpha := by
  rw [hsplits.displayWords_eq, List.append_eq_nil_iff, words_eq_nil_iff, words_eq_nil_iff,
    List.forall_mem_append]

theorem Splits.displayWords_ne_nil (hsplits : Splits line names before after)
    (hletter : ∃ c ∈ before ++ after, c.isAlpha) : displayWords line ≠ [] := by
  rw [Ne, hsplits.displayWords_eq_nil_iff]
  obtain ⟨c, hmem, hc⟩ := hletter
  exact fun hnone => hnone c hmem hc

theorem Splits.styleOf_eq_ok (hsplits : Splits line names before after)
    {placement : Option Placement} {color : Option String} (hstyle : Styles names placement color) :
    ∃ style, styleOf line = .ok style ∧ placement = style.map Prod.fst ∧
      color = style.map Prod.snd := by
  cases hstyle with
  | plain => exact ⟨none, by simp only [styleOf, hsplits.cut?_eq_none.1], rfl, rfl⟩
  | @named word color placement hname =>
      refine ⟨some (placement, String.ofList color), ?_, rfl, rfl⟩
      simp only [styleOf, hsplits.cut?_eq, Placement.ofName?_eq_some_iff.mpr hname]

theorem Splits.styleOf_eq_error {word color : List Char}
    (hsplits : Splits line (some (word, color)) before after)
    (hname : ∀ placement : Placement, ¬ placement.IsNamedBy word) :
    styleOf line = .error (.unknownPlacement (String.ofList word)) := by
  have hunknown : Placement.ofName? (String.ofList word) = none := by
    rw [Option.eq_none_iff_forall_not_mem]
    intro placement hplacement
    exact hname placement (Placement.ofName?_eq_some_iff.mp hplacement)
  simp only [styleOf, hsplits.cut?_eq, hunknown]

/-- A line is read as what it means. -/
theorem Means.parse_eq {line : String} {result : Except MalformedCue Cue}
    (hmeans : Means line result) : parse line = result := by
  cases hmeans with
  | missing htimes hfew =>
      have hlength := congrArg List.length (eq_map_scan htimes)
      rw [List.length_map] at hlength
      rw [hlength] at hfew ⊢
      match hscan : Timecode.scan line.toList, hfew with
      | [], _ => simp only [parse, ofChars, hscan, List.map_nil]; rfl
      | [code], _ => simp only [parse, ofChars, hscan, List.map_cons, List.map_nil]; rfl
  | backwards htimes horder =>
      obtain ⟨others, hscan⟩ := htimes.exists_scan
      simp only [parse, ofChars, hscan, if_pos horder]
  | wordless htimes horder hsplits hletters =>
      obtain ⟨others, hscan⟩ := htimes.exists_scan
      have hwords := hsplits.displayWords_eq_nil_iff.mpr hletters
      simp only [parse, ofChars, hscan, if_neg (Nat.not_lt_of_le horder), if_pos hwords]
  | misplaced htimes horder hsplits hletter hname =>
      obtain ⟨others, hscan⟩ := htimes.exists_scan
      have hwords := hsplits.displayWords_ne_nil hletter
      simp only [parse, ofChars, hscan, if_neg (Nat.not_lt_of_le horder), if_neg hwords,
        hsplits.styleOf_eq_error hname]
  | cue htimes horder hsplits hletter htext hstyle =>
      obtain ⟨others, hscan⟩ := htimes.exists_scan
      obtain ⟨style, hstyleOf, rfl, rfl⟩ := hsplits.styleOf_eq_ok hstyle
      obtain ⟨first, second, hfirst, hsecond, rfl⟩ := htext
      have hwords := hsplits.displayWords_ne_nil hletter
      have hall : displayWords line.toList = first ++ second := by
        rw [hsplits.displayWords_eq, hfirst.unique (matches_words _),
          hsecond.unique (matches_words _)]
      rw [hall] at hwords
      simp only [parse, ofChars, hscan, if_neg (Nat.not_lt_of_le horder), hall, if_neg hwords,
        hstyleOf, unwords]

/-- Reading a line gives what the line means and nothing else. -/
theorem parse_eq_iff_means {line : String} {result : Except MalformedCue Cue} :
    parse line = result ↔ Means line result := by
  constructor
  · rintro rfl
    obtain ⟨result, hmeans⟩ := exists_means line
    rw [hmeans.parse_eq]
    exact hmeans
  · exact Means.parse_eq

/-- Digits that belong to no code and brackets that are not closed are passed over. -/
example : parse "100:0200:03[a, b[Top, Red]c" =
    .ok ⟨2000, 3000, "a b c", some .top, some "Red"⟩ := rfl

end Cue

end Captions
