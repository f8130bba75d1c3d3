import Captions.Cue.Printer
import Captions.Proofs.Cue.WellFormed
import Captions.Proofs.Text.Lines

/-! # Written cues are read back

The canonical line of a well-formed cue holds two time codes, its bracket if it has
one, and its words; nothing in it can be taken for another part. So a listing of
cues that were read from lines never fails, has one line for each cue, and each
line is read as that cue.
-/

namespace Captions.Cue

theorem isWord_name (placement : Placement) : Text.IsWord placement.name.toList := by
  cases placement <;> simp [Text.IsWord, Placement.name]

/-- The canonical line of a cue without its end, for given codes of its times. -/
def canonicalLine (first second : Timecode) (cue : Cue) : String :=
  first.render ++ " " ++ second.render ++ cue.printStyle ++ " " ++ cue.text

/-- The two codes of a canonical line with the spaces around the second. -/
def canonicalTimes (first second : Timecode) : List Char :=
  first.toChars ++ ' ' :: (second.toChars ++ [' '])

theorem notMem_canonicalTimes {c : Char} (first second : Timecode) (hdigit : ¬ c.isDigit)
    (hcolon : c ≠ ':') (hspace : c ≠ ' ') : c ∉ canonicalTimes first second := by
  have hcode (code : Timecode) : c ∉ code.toChars := fun hmem =>
    (Timecode.isDigit_or_eq_colon_of_mem_toChars hmem).elim hdigit hcolon
  simp [canonicalTimes, hcode, hspace]

theorem not_isAlpha_of_mem_canonicalTimes {first second : Timecode} {c : Char}
    (hmem : c ∈ canonicalTimes first second) : ¬ c.isAlpha := by
  intro hc
  refine notMem_canonicalTimes first second (Text.not_isDigit_of_isAlpha hc) ?_ ?_ hmem
  · rintro rfl
    exact absurd hc (by decide)
  · rintro rfl
    exact absurd hc (by decide)

/-- The times of a line that starts with two codes are these two. -/
theorem scan_canonicalTimes_append (first second : Timecode) (rest : List Char) :
    Timecode.scan (canonicalTimes first second ++ rest) =
      first :: second :: Timecode.scan rest := by
  have hspace : ¬ (' ').isDigit := by decide
  rw [canonicalTimes, List.append_assoc, List.cons_append, List.append_assoc,
    Timecode.scan_toChars_append, Timecode.scan_cons_of_not_isDigit hspace,
    Timecode.scan_toChars_append, List.singleton_append, Timecode.scan_cons_of_not_isDigit hspace]

theorem toList_canonicalLine_of_plain {first second : Timecode} {cue : Cue}
    (hstyle : cue.placement = none) :
    (cue.canonicalLine first second).toList =
      canonicalTimes first second ++ cue.text.toList := by
  simp [canonicalLine, canonicalTimes, printStyle, Timecode.render, hstyle]

theorem toList_canonicalLine_of_styled {first second : Timecode} {cue : Cue}
    {placement : Placement} {color : String} (hplacement : cue.placement = some placement)
    (hcolor : cue.color = some color) :
    (cue.canonicalLine first second).toList = canonicalTimes first second ++
      ((⟨placement.name.toList, color.toList⟩ : Bracket).toChars ++ ' ' :: cue.text.toList) := by
  simp [canonicalLine, canonicalTimes, printStyle, Timecode.render, Bracket.toChars, hplacement,
    hcolor]

theorem words_canonicalTimes_append (first second : Timecode) (rest : List Char) :
    Text.words (canonicalTimes first second ++ rest) = Text.words rest :=
  Text.words_append_of_no_letters (fun _ => not_isAlpha_of_mem_canonicalTimes) rest

theorem exists_scan_canonicalLine (first second : Timecode) {cue : Cue} (hcue : cue.WellFormed) :
    ∃ others, Timecode.scan (cue.canonicalLine first second).toList =
      first :: second :: others := by
  rcases hcue.style with ⟨hplacement, _⟩ | ⟨placement, color, hplacement, _, hcolor, _⟩
  · rw [toList_canonicalLine_of_plain hplacement]
    exact ⟨_, scan_canonicalTimes_append first second _⟩
  · rw [toList_canonicalLine_of_styled hplacement hcolor]
    exact ⟨_, scan_canonicalTimes_append first second _⟩

theorem cut?_canonicalLine_of_plain (first second : Timecode) {cue : Cue} (hcue : cue.WellFormed)
    (hplacement : cue.placement = none) :
    Bracket.cut? (cue.canonicalLine first second).toList = none := by
  obtain ⟨ws, _, hws, htext⟩ := hcue.text_words
  rw [toList_canonicalLine_of_plain hplacement, htext]
  apply Bracket.cut?_eq_none
  intro hmem
  rcases List.mem_append.mp hmem with hmem | hmem
  · exact notMem_canonicalTimes first second (by decide) (by decide) (by decide) hmem
  · exact absurd (Text.isAlpha_or_eq_space_of_mem_unwords hws hmem) (by decide)

theorem cut?_canonicalLine_of_styled (first second : Timecode) {cue : Cue}
    {placement : Placement} {color : String} (hplacement : cue.placement = some placement)
    (hcolor : cue.color = some color) (hword : Text.IsWord color.toList) :
    Bracket.cut? (cue.canonicalLine first second).toList =
      some ⟨canonicalTimes first second, ⟨placement.name.toList, color.toList⟩,
        ' ' :: cue.text.toList⟩ := by
  rw [toList_canonicalLine_of_styled hplacement hcolor]
  apply Bracket.cut?_append_toChars
  · exact notMem_canonicalTimes first second (by decide) (by decide) (by decide)
  · exact isWord_name placement
  · exact hword

theorem displayWords_canonicalLine (first second : Timecode) {cue : Cue}
    (hcue : cue.WellFormed) :
    displayWords (cue.canonicalLine first second).toList = Text.words cue.text.toList := by
  rcases hcue.style with ⟨hplacement, _⟩ | ⟨placement, color, hplacement, _, hcolor, hword⟩
  · simp only [displayWords, cut?_canonicalLine_of_plain first second hcue hplacement]
    rw [toList_canonicalLine_of_plain hplacement, words_canonicalTimes_append]
  · -- The words before the bracket are those of the two codes, and there are none.
    have hbefore := words_canonicalTimes_append first second []
    rw [List.append_nil] at hbefore
    simp only [displayWords, cut?_canonicalLine_of_styled first second hplacement hcolor hword]
    rw [hbefore, Text.words_cons_of_not_isAlpha Text.isAlpha_space]
    rfl

theorem styleOf_canonicalLine (first second : Timecode) {cue : Cue} (hcue : cue.WellFormed) :
    ∃ style, styleOf (cue.canonicalLine first second).toList = .ok style ∧
      cue.placement = style.map Prod.fst ∧ cue.color = style.map Prod.snd := by
  rcases hcue.style with
    ⟨hplacement, hcolor⟩ | ⟨placement, color, hplacement, hnamed, hcolor, hword⟩
  · refine ⟨none, ?_, hplacement, hcolor⟩
    simp only [styleOf, cut?_canonicalLine_of_plain first second hcue hplacement]
  · refine ⟨some (placement, color), ?_, hplacement, hcolor⟩
    simp only [styleOf, cut?_canonicalLine_of_styled first second hplacement hcolor hword,
      String.ofList_toList, Placement.ofName?_name hnamed]

/-- The canonical line of a well-formed cue is read as that cue. -/
theorem parse_canonicalLine {cue : Cue} (hcue : cue.WellFormed) {first second : Timecode}
    (hfirst : first.offset = cue.showAt) (hsecond : second.offset = cue.hideAt) :
    parse (cue.canonicalLine first second) = .ok cue := by
  obtain ⟨ws, hne, hws, htext⟩ := hcue.text_words
  have hwords : displayWords (cue.canonicalLine first second).toList = ws := by
    rw [displayWords_canonicalLine first second hcue, htext, Text.words_unwords hws]
  have hjoined : String.ofList (Text.unwords ws) = cue.text := by
    rw [← htext, String.ofList_toList]
  obtain ⟨others, hscan⟩ := exists_scan_canonicalLine first second hcue
  obtain ⟨style, hstyle, hplacement, hcolor⟩ := styleOf_canonicalLine first second hcue
  rw [parse_eq_ok_iff, ofChars_eq_ok_iff]
  refine ⟨first, second, others, style, hscan, ?_, ?_, hstyle, ?_⟩
  · rw [hfirst, hsecond]
    exact hcue.showAt_le_hideAt
  · rwa [hwords]
  · rw [hwords, hjoined, hfirst, hsecond, ← hplacement, ← hcolor]

theorem notMem_canonicalLine {cue : Cue} (hcue : cue.WellFormed) {c : Char}
    (hother : ¬ c.isDigit ∧ ¬ c.isAlpha ∧ c ∉ [':', ' ', '[', ',', ']'])
    (first second : Timecode) : c ∉ (cue.canonicalLine first second).toList := by
  obtain ⟨hdigit, halpha, hmarks⟩ := hother
  simp only [List.mem_cons, List.not_mem_nil, or_false, not_or] at hmarks
  obtain ⟨hcolon, hspace, hopen, hcomma, hclose⟩ := hmarks
  obtain ⟨ws, _, hws, htext⟩ := hcue.text_words
  have htimes := notMem_canonicalTimes first second hdigit hcolon hspace
  have hnotText : c ∉ cue.text.toList := by
    intro hmem
    rw [htext] at hmem
    exact (Text.isAlpha_or_eq_space_of_mem_unwords hws hmem).elim halpha hspace
  rcases hcue.style with ⟨hplacement, _⟩ | ⟨placement, color, hplacement, _, hcolor, hword⟩
  · rw [toList_canonicalLine_of_plain hplacement]
    exact fun hmem => (List.mem_append.mp hmem).elim htimes hnotText
  · have hname : c ∉ placement.name.toList := fun hmem => halpha ((isWord_name placement).2 c hmem)
    have hcolorName : c ∉ color.toList := fun hmem => halpha (hword.2 c hmem)
    rw [toList_canonicalLine_of_styled hplacement hcolor]
    simp [Bracket.toChars, htimes, hnotText, hname, hcolorName, hspace, hopen, hcomma, hclose]

theorem WellFormed.exists_codes {cue : Cue} (hcue : cue.WellFormed) :
    ∃ first second, Timecode.ofOffset? cue.showAt = some first ∧ first.offset = cue.showAt ∧
      Timecode.ofOffset? cue.hideAt = some second ∧ second.offset = cue.hideAt := by
  have hshowAt : cue.showAt ≤ 6039000 := hcue.showAt_le_hideAt.trans hcue.hideAt_le
  obtain ⟨first, hfirst, hshow⟩ := Timecode.exists_ofOffset? hshowAt hcue.showAt_whole
  obtain ⟨second, hsecond, hhide⟩ := Timecode.exists_ofOffset? hcue.hideAt_le hcue.hideAt_whole
  exact ⟨first, second, hfirst, hshow, hsecond, hhide⟩

theorem isOk_printTime {cue : Cue} (hcue : cue.WellFormed) :
    (printTime cue.showAt).isOk ∧ (printTime cue.hideAt).isOk := by
  obtain ⟨first, second, hfirst, _, hsecond, _⟩ := hcue.exists_codes
  rw [printTime_eq_ok hfirst, printTime_eq_ok hsecond]
  exact ⟨rfl, rfl⟩

/-- A well-formed cue is written as one line that is read as the cue. -/
theorem print_eq_ok {cue : Cue} (hcue : cue.WellFormed) :
    ∃ line, cue.print = .ok (line ++ "\n") ∧ parse line = .ok cue ∧
      '\n' ∉ line.toList ∧ '\r' ∉ line.toList := by
  obtain ⟨first, second, hfirst, hshow, hsecond, hhide⟩ := hcue.exists_codes
  refine ⟨cue.canonicalLine first second, ?_, parse_canonicalLine hcue hshow hhide,
    notMem_canonicalLine hcue (by decide) first second,
    notMem_canonicalLine hcue (by decide) first second⟩
  rw [print, printTime_eq_ok hfirst, printTime_eq_ok hsecond]
  rfl

theorem listing_eq_ok {cues : List Cue} (h : ∀ cue ∈ cues, cue.WellFormed) :
    ∃ lines, listing cues = .ok (Text.joinLines lines) ∧ lines.map parse = cues.map .ok ∧
      ∀ line ∈ lines, '\n' ∉ line.toList ∧ '\r' ∉ line.toList := by
  induction cues with
  | nil => exact ⟨[], rfl, rfl, by simp⟩
  | cons cue rest ih =>
      obtain ⟨line, hprint, hparse, hends⟩ := print_eq_ok (h cue List.mem_cons_self)
      obtain ⟨lines, hlisting, hlines, hothers⟩ :=
        ih fun other hmem => h other (List.mem_cons_of_mem _ hmem)
      refine ⟨line :: lines, ?_, ?_, ?_⟩
      · rw [listing, hprint, hlisting, Text.joinLines_cons]
        rfl
      · rw [List.map_cons, List.map_cons, hparse, hlines]
      · intro other hmem
        rcases List.mem_cons.mp hmem with rfl | hmem
        · exact hends
        · exact hothers other hmem

theorem wellFormed_of_map_parse {lines : List String} {cues : List Cue}
    (h : lines.map parse = cues.map .ok) : ∀ cue ∈ cues, cue.WellFormed := by
  intro cue hmem
  have hok : Except.ok cue ∈ lines.map parse := by
    rw [h]
    exact List.mem_map_of_mem hmem
  obtain ⟨line, _, hparse⟩ := List.mem_map.mp hok
  exact wellFormed_of_parse hparse

theorem listingWithin_eq_ok {cues : List Cue} {text : String} (h : listing cues = .ok text)
    {capacity : Option Nat} (hroom : ∀ bytes ∈ capacity, text.utf8ByteSize ≤ bytes) :
    listingWithin capacity cues = .ok text := by
  have hfits : capacity.any (· < text.utf8ByteSize) = false := by
    cases capacity with
    | none => rfl
    | some bytes => simpa using hroom bytes rfl
  simp only [listingWithin, h, bind, Except.bind, hfits]
  rfl

theorem eq_of_map_ok {ε α : Type} {first second : List α}
    (h : first.map (Except.ok (ε := ε)) = second.map Except.ok) : first = second :=
  (List.map_inj_right fun _ _ => Except.ok.inj).mp h

/-- Cues that were read from lines are written without an error, their times
included, if the device takes the whole text. The text has one line for each cue,
which is read as that cue. So no other cues have the same text, and the cues read
from the text have it again. -/
theorem parse_listing {sources : List String} {cues : List Cue}
    (hsources : sources.map parse = cues.map .ok) :
    (∀ cue ∈ cues, (printTime cue.showAt).isOk ∧ (printTime cue.hideAt).isOk) ∧
    ∃ (text : String) (lines : List String),
      (∀ capacity : Option Nat, (∀ bytes ∈ capacity, text.utf8ByteSize ≤ bytes) →
        listingWithin capacity cues = .ok text) ∧
      text = Text.joinLines lines ∧ (∀ line ∈ lines, '\n' ∉ line.toList) ∧
      Text.readLines (Text.utf8 text) = lines.map .ok ∧
      lines.map parse = cues.map .ok ∧
      (∀ reread : List Cue, lines.map parse = reread.map .ok →
        listingWithin none reread = .ok text) ∧
      ∀ (otherSources : List String) (others : List Cue),
        otherSources.map parse = others.map .ok → listingWithin none others = .ok text →
        others = cues := by
  have hcues := wellFormed_of_map_parse hsources
  obtain ⟨lines, hlisting, hlines, hends⟩ := listing_eq_ok hcues
  have hread := Text.readLines_joinLines hends
  refine ⟨fun cue hmem => isOk_printTime (hcues cue hmem), Text.joinLines lines, lines,
    fun capacity hroom => listingWithin_eq_ok hlisting hroom, rfl,
    fun line hmem => (hends line hmem).1, hread, hlines, ?_, ?_⟩
  · intro reread hreread
    have heq : reread = cues := eq_of_map_ok (hreread.symm.trans hlines)
    rw [heq]
    exact listingWithin_eq_ok hlisting (by simp)
  · intro otherSources others hothers htext
    obtain ⟨otherLines, hotherListing, hotherLines, hotherEnds⟩ :=
      listing_eq_ok (wellFormed_of_map_parse hothers)
    -- Equal texts have equal lines, because the lines can be read from the text.
    have hjoined : Text.joinLines otherLines = Text.joinLines lines := by
      rw [listingWithin_eq_ok hotherListing (by simp)] at htext
      exact Except.ok.inj htext
    have hsame : otherLines = lines := by
      have hotherRead := Text.readLines_joinLines hotherEnds
      rw [hjoined, hread] at hotherRead
      exact eq_of_map_ok hotherRead.symm
    rw [hsame, hlines] at hotherLines
    exact eq_of_map_ok hotherLines.symm

theorem parse_listing_carried_seconds :
    ["Hello [tOp, Red] 98:60 World, 99:99!", "00:75 01:15 Bye"].map parse =
        [⟨5940000, 6039000, "Hello World", some .top, some "Red"⟩,
          ⟨75000, 75000, "Bye", none, none⟩].map .ok ∧
      ∃ (text : String) (lines : List String),
        listingWithin none [⟨5940000, 6039000, "Hello World", some .top, some "Red"⟩,
          ⟨75000, 75000, "Bye", none, none⟩] = .ok text ∧
        Text.readLines (Text.utf8 text) = lines.map .ok ∧
        lines.map parse = [⟨5940000, 6039000, "Hello World", some .top, some "Red"⟩,
          ⟨75000, 75000, "Bye", none, none⟩].map .ok := by
  have hsources : ["Hello [tOp, Red] 98:60 World, 99:99!", "00:75 01:15 Bye"].map parse =
      [⟨5940000, 6039000, "Hello World", some .top, some "Red"⟩,
        ⟨75000, 75000, "Bye", none, none⟩].map .ok := rfl
  obtain ⟨_, text, lines, hlisting, _, _, hread, hlines, _⟩ := parse_listing hsources
  exact ⟨hsources, text, lines, hlisting none (by simp), hread, hlines⟩

end Captions.Cue
