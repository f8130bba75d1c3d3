import Captions.Proofs.Cue.Meaning

/-! # Searching for tokens and reading them

A line is searched for codes and for a bracket by their patterns, and what is found is then read
character by character. Both go by the same tokens: whatever the search finds can be read, all of it
and as nothing else, so no code is missing from the count and no bracket is taken out of the text
without giving a placement and a colour.
-/

namespace Captions.Cue

open Text

/-- All codes of a line are read, and the first two of them are its times. -/
structure CountsTokens (line : String) (tokens : List (List Char)) : Prop where
  read : tokens.map (fun token => Timecode.parse? (String.ofList token)) =
    (Timecode.scan line.toList).map some
  missing_iff : ∀ found : Nat, parse line = .error ⟨line, .missingTimecode found⟩ ↔
    tokens.length = found ∧ found < 2
  times : ∀ (first second : List Char) (others : List (List Char)),
    tokens = first :: second :: others →
    ∃ showAt hideAt : Timecode, Timecode.parse? (String.ofList first) = some showAt ∧
      Timecode.parse? (String.ofList second) = some hideAt ∧
      (∀ early late : Nat, parse line = .error ⟨line, .hideBeforeShow early late⟩ →
        early = showAt.offset ∧ late = hideAt.offset) ∧
      ∀ cue : Cue, parse line = .ok cue →
        cue.showAt = showAt.offset ∧ cue.hideAt = hideAt.offset

/-- The first match for a bracket is where the line is cut. It is read as a whole and left out of the
text, and its two words are the placement and the colour. -/
structure UsesBracket (line : String) (before token after : List Char) (bracket : Bracket) :
    Prop where
  first : FirstMatch Bracket.IsToken line.toList before token after
  found : Bracket.cut? line.toList = some ⟨before, bracket, after⟩
  read : Bracket.take? token = some (bracket, [])
  token_eq : token = '[' :: (bracket.placement ++ ',' :: ' ' :: (bracket.color ++ [']']))
  names : IsWord bracket.placement ∧ IsWord bracket.color
  used : ∀ cue : Cue, parse line = .ok cue →
    cue.text = String.ofList (unwords (words before ++ words after)) ∧
      (∃ placement, Placement.ofName? (String.ofList bracket.placement) = some placement ∧
        cue.placement = some placement) ∧
      cue.color = some (String.ofList bracket.color)

/-- What matches the pattern of a code is read as the code with the offset of its digits. -/
theorem exists_code_of_isToken {token : List Char} (htoken : Timecode.IsToken token) :
    ∃ code : Timecode, Timecode.parse? (String.ofList token) = some code ∧
      code.offset = Timecode.tokenOffset token := by
  obtain ⟨code, rfl⟩ := htoken.exists_toChars
  refine ⟨code, Timecode.parse?_eq_some_iff.mpr String.toList_ofList, ?_⟩
  exact (Timecode.tokenOffset_toChars code).symm

variable {line : String} {tokens : List (List Char)}

theorem map_parse?_eq (htokens : Matches Timecode.IsToken line.toList tokens) :
    tokens.map (fun token => Timecode.parse? (String.ofList token)) =
      (Timecode.scan line.toList).map some := by
  rw [eq_map_scan htokens, List.map_map]
  refine List.map_congr_left ?_
  intro code _
  exact Timecode.parse?_eq_some_iff.mpr String.toList_ofList

theorem isToken_of_mem (htokens : Matches Timecode.IsToken line.toList tokens)
    {token : List Char} (hmem : token ∈ tokens) : Timecode.IsToken token := by
  rw [eq_map_scan htokens] at hmem
  obtain ⟨code, _, rfl⟩ := List.mem_map.mp hmem
  exact Timecode.isToken_toChars code

/-- Reading a line can be split by what the line means. -/
theorem means_parse (line : String) : Means line (parse line) := by
  obtain ⟨result, hmeans⟩ := exists_means line
  rw [hmeans.parse_eq]
  exact hmeans

/-- A line lacks times exactly if it has fewer than two matches, and their number is told. -/
theorem parse_eq_missing_iff (htokens : Matches Timecode.IsToken line.toList tokens) {found : Nat} :
    parse line = .error ⟨line, .missingTimecode found⟩ ↔ tokens.length = found ∧ found < 2 := by
  constructor
  · intro hparse
    have hmeans := means_parse line
    rw [hparse] at hmeans
    cases hmeans with
    | missing htimes hfew =>
        rw [htokens.unique htimes]
        exact ⟨rfl, hfew⟩
  · rintro ⟨rfl, hfew⟩
    exact (Means.missing htokens hfew).parse_eq

/-- The times of a line are those of its first two matches. -/
theorem Times.eq_tokenOffset {showAt hideAt : Nat} {first second : List Char}
    {others : List (List Char)} (htimes : Times line.toList showAt hideAt)
    (htokens : Matches Timecode.IsToken line.toList (first :: second :: others)) :
    showAt = Timecode.tokenOffset first ∧ hideAt = Timecode.tokenOffset second := by
  obtain ⟨_, _, _, hmatches, rfl, rfl⟩ := htimes
  cases htokens.unique hmatches
  exact ⟨rfl, rfl⟩

theorem countsTokens_of_matches (htokens : Matches Timecode.IsToken line.toList tokens) :
    CountsTokens line tokens := by
  refine ⟨map_parse?_eq htokens, fun _ => parse_eq_missing_iff htokens, ?_⟩
  rintro first second others rfl
  have hfirst := isToken_of_mem htokens List.mem_cons_self
  have hsecond := isToken_of_mem htokens (List.mem_cons_of_mem _ List.mem_cons_self)
  obtain ⟨showAt, hshow, hshowAt⟩ := exists_code_of_isToken hfirst
  obtain ⟨hideAt, hhide, hhideAt⟩ := exists_code_of_isToken hsecond
  refine ⟨showAt, hideAt, hshow, hhide, ?_, ?_⟩
  · intro early late hparse
    have hmeans := means_parse line
    rw [hparse] at hmeans
    cases hmeans with
    | backwards htimes =>
        rw [hshowAt, hhideAt]
        exact htimes.eq_tokenOffset htokens
  · intro cue hparse
    have hmeans := means_parse line
    rw [hparse] at hmeans
    cases hmeans with
    | cue htimes =>
        rw [hshowAt, hhideAt]
        exact htimes.eq_tokenOffset htokens

/-- The two words of a bracket that is cut out of a line are what its cue gets in place of them. -/
theorem used_of_cut? {cut : Bracket.Cut} (hcut : Bracket.cut? line.toList = some cut) {cue : Cue}
    (hparse : parse line = .ok cue) :
    cue.text = String.ofList (unwords (words cut.before ++ words cut.after)) ∧
      (∃ placement, Placement.ofName? (String.ofList cut.bracket.placement) = some placement ∧
        cue.placement = some placement) ∧
      cue.color = some (String.ofList cut.bracket.color) := by
  rw [parse_eq_ok_iff, ofChars_eq_ok_iff] at hparse
  obtain ⟨_, _, _, style, _, _, _, hstyle, rfl⟩ := hparse
  have hwords : displayWords line.toList = words cut.before ++ words cut.after := by
    simp only [displayWords, hcut]
  simp only [styleOf, hcut] at hstyle
  split at hstyle
  next placement hplacement =>
    cases hstyle
    rw [hwords]
    exact ⟨rfl, ⟨placement, hplacement, rfl⟩, rfl⟩
  next => cases hstyle

theorem usesBracket_of_cut? {cut : Bracket.Cut} (hcut : Bracket.cut? line.toList = some cut) :
    UsesBracket line cut.before cut.bracket.toChars cut.after cut.bracket := by
  obtain ⟨hplacement, hcolor⟩ := Bracket.isWord_of_cut? hcut
  have hread := Bracket.take?_toChars cut.bracket [] hplacement hcolor
  rw [List.append_nil] at hread
  exact ⟨Bracket.firstMatch_of_cut? hcut, hcut, hread, by simp [Bracket.toChars],
    ⟨hplacement, hcolor⟩, fun _ hparse => used_of_cut? hcut hparse⟩

/-- If the pattern of a bracket matches somewhere in a line, a bracket is read and used. -/
theorem exists_usesBracket (hoccurs : Occurs Bracket.IsToken line.toList) :
    ∃ before token after bracket, UsesBracket line before token after bracket := by
  cases hcut : Bracket.cut? line.toList with
  | none => exact absurd hoccurs (Bracket.not_occurs_of_cut? hcut)
  | some cut => exact ⟨_, _, _, _, usesBracket_of_cut? hcut⟩

/-- A text is read as a code exactly if it matches the pattern of one, every match in a line is read
and counts, and where the pattern of a bracket matches, its first match is read and used as one. -/
theorem tokens_found_are_read :
    (∀ token : String, (Timecode.parse? token).isSome ↔ Timecode.IsToken token.toList) ∧
      (∀ (line : String) (tokens : List (List Char)),
        Matches Timecode.IsToken line.toList tokens → CountsTokens line tokens) ∧
      ∀ line : String, Occurs Bracket.IsToken line.toList →
        ∃ before token after bracket, UsesBracket line before token after bracket :=
  ⟨fun _ => Timecode.isSome_parse?_iff, fun _ _ htokens => countsTokens_of_matches htokens,
    fun _ hoccurs => exists_usesBracket hoccurs⟩

/-- Tokens that touch each other, a bracket that is not closed and one inside it. -/
theorem tokens_found_are_read_touching :
    CountsTokens "00:01:02:03[a, b[Top, Red]x99:99"
        ["00:01".toList, "02:03".toList, "99:99".toList] ∧
      ∃ before token after bracket,
        UsesBracket "00:01:02:03[a, b[Top, Red]x99:99" before token after bracket := by
  have htokens : Matches Timecode.IsToken "00:01:02:03[a, b[Top, Red]x99:99".toList
      ["00:01".toList, "02:03".toList, "99:99".toList] :=
    Timecode.matches_scan "00:01:02:03[a, b[Top, Red]x99:99".toList
  have hplacement : IsWord "Top".toList := by simp [IsWord]
  have hcolor : IsWord "Red".toList := by simp [IsWord]
  have hoccurs : Occurs Bracket.IsToken "00:01:02:03[a, b[Top, Red]x99:99".toList :=
    ⟨"00:01:02:03[a, b".toList, "[Top, Red]".toList, "x99:99".toList, rfl,
      "Top".toList, "Red".toList, hplacement, hcolor, rfl⟩
  exact ⟨tokens_found_are_read.2.1 _ _ htokens, tokens_found_are_read.2.2 _ hoccurs⟩

end Captions.Cue
