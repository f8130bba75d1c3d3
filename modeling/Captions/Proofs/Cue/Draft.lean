import Captions.Proofs.Cue.Meaning

/-! # Lines put together from items

An author can write the times, the words and the bracket of a cue in any order, with anything
between them but letters and digits. The items may even touch: wherever one of the three searches
finds something, it finds an item that was written there, and never one that two items make up
together.
-/

namespace Captions

open Text

/-- What an author writes into a line. -/
inductive Item where
  | time (code : Timecode)
  | word (letters : List Char)
  | bracket (placement color : List Char)
deriving DecidableEq, Repr

namespace Item

/-- The characters of an item. -/
def toChars : Item → List Char
  | time code => code.toChars
  | word letters => letters
  | bracket placement color => (⟨placement, color⟩ : Bracket).toChars

/-- The code of a time. -/
def time? : Item → Option Timecode
  | time code => some code
  | word _ | bracket .. => none

/-- The letters of a word. -/
def word? : Item → Option (List Char)
  | word letters => some letters
  | time _ | bracket .. => none

/-- The two names in a bracket. -/
def bracket? : Item → Option (List Char × List Char)
  | bracket placement color => some (placement, color)
  | time _ | word _ => none

/-- Words and colours are made of letters, and a placement is called by its name. -/
def IsSpelled : Item → Prop
  | time _ => True
  | word letters => IsWord letters
  | bracket placement color =>
    (∃ found : Placement, found.IsNamedBy placement) ∧ IsWord color

end Item

/-- A line that an author puts together, with a gap before each item and one after the last. -/
inductive Draft where
  | last (gap : List Char)
  | next (gap : List Char) (item : Item) (rest : Draft)
deriving DecidableEq, Repr

namespace Draft

/-- The line as it is written. -/
def toChars : Draft → List Char
  | last gap => gap
  | next gap item rest => gap ++ (item.toChars ++ rest.toChars)

/-- The items in order. -/
def items : Draft → List Item
  | last _ => []
  | next _ item rest => item :: rest.items

/-- The gaps in order. -/
def gaps : Draft → List (List Char)
  | last gap => [gap]
  | next gap _ rest => gap :: rest.gaps

/-- The times in order. -/
def times (draft : Draft) : List Timecode :=
  draft.items.filterMap Item.time?

/-- The words in order. -/
def words (draft : Draft) : List (List Char) :=
  draft.items.filterMap Item.word?

/-- The brackets in order. -/
def brackets (draft : Draft) : List (List Char × List Char) :=
  draft.items.filterMap Item.bracket?

/-- Between two words there is something. -/
def KeepsApart : Draft → Prop
  | last _ => True
  | next _ item rest =>
    (item.word?.isSome → (rest.items.head?.bind Item.word?).isSome → rest.gaps.head? ≠ some []) ∧
      rest.KeepsApart

/-- No gap before the first bracket, or none at all if there is no bracket, holds an opening
bracket. -/
def OpensAtBracket : Draft → Prop
  | last gap => '[' ∉ gap
  | next gap item rest => '[' ∉ gap ∧ (item.bracket? = none → rest.OpensAtBracket)

/-- Items that can be told apart: no gap holds a letter or a digit. -/
structure IsSeparated (draft : Draft) : Prop where
  spelled : ∀ item ∈ draft.items, item.IsSpelled
  neutral : ∀ gap ∈ draft.gaps, ∀ c ∈ gap, ¬ c.isAlpha ∧ ¬ c.isDigit
  apart : draft.KeepsApart

/-- Items that can be told apart, with at most one bracket among them and no opening bracket in a
gap before it. -/
structure IsLegible (draft : Draft) : Prop extends draft.IsSeparated where
  opening : draft.OpensAtBracket
  brackets : draft.brackets.length ≤ 1

end Draft

namespace Placement

theorem isAlpha_of_isAlpha_toLower {c : Char} (hc : c.toLower.isAlpha) : c.isAlpha := by
  by_cases hupper : c.isUpper
  · exact Bool.or_eq_true_iff.mpr (.inl hupper)
  · have hrange : ¬ (c.val ≥ 'A'.val ∧ c.val ≤ 'Z'.val) := fun hrange =>
      hupper (decide_eq_true hrange)
    have hsame : c.toLower = c := dif_neg hrange
    rwa [hsame] at hc

/-- What names a placement is a word. -/
theorem IsNamedBy.isWord {placement : Placement} {word : List Char}
    (hnamed : placement.IsNamedBy word) : IsWord word := by
  obtain ⟨_, hsame⟩ := hnamed
  have hletters : ∀ c ∈ placement.name.toList.map Char.toLower, c.isAlpha := by
    refine List.all_eq_true.mp ?_
    cases placement <;> decide
  refine ⟨?_, ?_⟩
  · rintro rfl
    cases placement <;> cases hsame
  · intro c hc
    refine isAlpha_of_isAlpha_toLower (hletters _ ?_)
    rw [← hsame]
    exact List.mem_map_of_mem hc

end Placement

namespace Cue

variable {first second : List Char}

theorem styleOf_append (hfirst : '[' ∉ first) (second : List Char) :
    styleOf (first ++ second) = styleOf second := by
  unfold styleOf
  rw [Bracket.cut?_append hfirst]
  cases Bracket.cut? second with
  | none => rfl
  | some cut => rfl

/-- What stands before all brackets adds its words, if no word goes on behind it. -/
theorem displayWords_append (hfirst : '[' ∉ first)
    (hseam : (∀ c ∈ first.getLast?, ¬ c.isAlpha) ∨ ∀ c ∈ second.head?, ¬ c.isAlpha) :
    displayWords (first ++ second) = words first ++ displayWords second := by
  unfold displayWords
  rw [Bracket.cut?_append hfirst]
  cases hcut : Bracket.cut? second with
  | none => exact words_append hseam
  | some cut =>
      have hsecond := (Bracket.firstMatch_of_cut? hcut).text_eq
      have hbefore : (∀ c ∈ first.getLast?, ¬ c.isAlpha) ∨ ∀ c ∈ cut.before.head?, ¬ c.isAlpha := by
        refine hseam.imp_right fun hhead c hc => hhead c ?_
        rw [hsecond, List.append_assoc, List.head?_append, Option.mem_def.mp hc]
        rfl
      simp only [Option.map_some, words_append hbefore, List.append_assoc]

end Cue

theorem Timecode.not_isAlpha_of_mem_toChars {code : Timecode} {c : Char}
    (hc : c ∈ code.toChars) : ¬ c.isAlpha := by
  rcases isDigit_or_eq_colon_of_mem_toChars hc with hdigit | rfl
  · exact fun halpha => not_isDigit_of_isAlpha halpha hdigit
  · decide

theorem Bracket.mem_toChars {bracket : Bracket} {c : Char} (hc : c ∈ bracket.toChars) :
    c ∈ bracket.placement ∨ c ∈ bracket.color ∨ c ∈ ['[', ',', ' ', ']'] := by
  simp only [toChars, List.cons_append, List.mem_cons, List.mem_append, List.not_mem_nil,
    or_false] at hc ⊢
  rcases hc with rfl | (hc | rfl | rfl | hc) | rfl
  · simp
  · exact .inl hc
  · simp
  · simp
  · exact .inr (.inl hc)
  · simp

theorem Item.not_isDigit_of_mem_toChars {item : Item} (hspelled : item.IsSpelled)
    (htime : item.time? = none) {c : Char} (hc : c ∈ item.toChars) : ¬ c.isDigit := by
  have hmarks : ∀ c ∈ ['[', ',', ' ', ']'], ¬ c.isDigit := List.any_eq_false.mp (by decide)
  cases item with
  | time code => cases htime
  | word letters => exact not_isDigit_of_isAlpha (hspelled.2 c hc)
  | bracket placement color =>
      obtain ⟨⟨found, hnamed⟩, hcolor⟩ := hspelled
      rcases Bracket.mem_toChars hc with hc | hc | hc
      · exact not_isDigit_of_isAlpha (hnamed.isWord.2 c hc)
      · exact not_isDigit_of_isAlpha (hcolor.2 c hc)
      · exact hmarks c hc

namespace Draft

variable {draft rest : Draft} {gap : List Char} {item : Item}

theorem times_next : (next gap item rest).times = item.time?.toList ++ rest.times := by
  cases item <;> rfl

theorem words_next : (next gap item rest).words = item.word?.toList ++ rest.words := by
  cases item <;> rfl

theorem brackets_next : (next gap item rest).brackets = item.bracket?.toList ++ rest.brackets := by
  cases item <;> rfl

namespace IsSeparated

theorem of_next (hdraft : (next gap item rest).IsSeparated) : rest.IsSeparated where
  spelled := fun other hother => hdraft.spelled other (List.mem_cons_of_mem _ hother)
  neutral := fun other hother => hdraft.neutral other (List.mem_cons_of_mem _ hother)
  apart := hdraft.apart.2

theorem gap_neutral (hdraft : (next gap item rest).IsSeparated) :
    ∀ c ∈ gap, ¬ c.isAlpha ∧ ¬ c.isDigit :=
  hdraft.neutral gap List.mem_cons_self

theorem item_spelled (hdraft : (next gap item rest).IsSeparated) : item.IsSpelled :=
  hdraft.spelled item List.mem_cons_self

/-- The times of a line are the codes written in it. -/
theorem scan_toChars (hdraft : draft.IsSeparated) : Timecode.scan draft.toChars = draft.times := by
  induction draft with
  | last gap =>
      exact Timecode.scan_of_no_digits fun c hc => (hdraft.neutral gap List.mem_cons_self c hc).2
  | next gap item rest ih =>
      have hrest := ih hdraft.of_next
      rw [toChars, Timecode.scan_append_of_no_digits fun c hc => (hdraft.gap_neutral c hc).2,
        times_next]
      cases htime : item.time? with
      | none =>
          have hitem : ∀ c ∈ item.toChars, ¬ c.isDigit := fun c hc =>
            Item.not_isDigit_of_mem_toChars hdraft.item_spelled htime hc
          rw [Timecode.scan_append_of_no_digits hitem, hrest]
          rfl
      | some code =>
          cases item with
          | time _ =>
              cases htime
              rw [Item.toChars, Timecode.scan_toChars_append, hrest]
              rfl
          | word | bracket => cases htime

/-- No letter stands directly behind a word. -/
theorem not_isAlpha_head (hdraft : (next gap item rest).IsSeparated) (hword : item.word?.isSome) :
    ∀ c ∈ rest.toChars.head?, ¬ c.isAlpha := by
  intro c hc
  cases rest with
  | last gap => exact (hdraft.of_next.neutral gap List.mem_cons_self c (List.mem_of_head? hc)).1
  | next gap item rest =>
      cases gap with
      | cons d gap =>
          cases hc
          exact (hdraft.of_next.gap_neutral c List.mem_cons_self).1
      | nil =>
          cases item with
          -- Two words would touch here.
          | word letters => exact absurd rfl (hdraft.apart.1 hword rfl)
          | time code =>
              have hmem : c ∈ code.toChars := by
                cases hc
                exact List.mem_cons_self
              exact Timecode.not_isAlpha_of_mem_toChars hmem
          | bracket placement color =>
              cases hc
              decide

/-- No word goes on from an item and the gap before it to what stands behind. -/
theorem seam (hdraft : (next gap item rest).IsSeparated) (hbracket : item.bracket? = none) :
    (∀ c ∈ (gap ++ item.toChars).getLast?, ¬ c.isAlpha) ∨ ∀ c ∈ rest.toChars.head?, ¬ c.isAlpha := by
  cases item with
  | time code =>
      refine .inl fun c hc => ?_
      exact (List.mem_append.mp (List.mem_of_getLast? hc)).elim
        (fun hgap => (hdraft.gap_neutral c hgap).1) Timecode.not_isAlpha_of_mem_toChars
  | word letters => exact .inr (hdraft.not_isAlpha_head rfl)
  | bracket => cases hbracket

theorem words_gap_append (hdraft : (next gap item rest).IsSeparated)
    (hbracket : item.bracket? = none) : Text.words (gap ++ item.toChars) = item.word?.toList := by
  rw [words_append_of_no_letters fun c hc => (hdraft.gap_neutral c hc).1]
  cases item with
  | time code => exact words_eq_nil fun c hc => Timecode.not_isAlpha_of_mem_toChars hc
  | word letters => exact words_of_isWord hdraft.item_spelled
  | bracket => cases hbracket

/-- The words of a line without a bracket are those written in it. -/
theorem words_toChars (hdraft : draft.IsSeparated) (hbrackets : draft.brackets = []) :
    Text.words draft.toChars = draft.words := by
  induction draft with
  | last gap => exact words_eq_nil fun c hc => (hdraft.neutral gap List.mem_cons_self c hc).1
  | next gap item rest ih =>
      rw [brackets_next, List.append_eq_nil_iff, Option.toList_eq_nil_iff] at hbrackets
      obtain ⟨hbracket, hbrackets⟩ := hbrackets
      rw [toChars, ← List.append_assoc, words_append (hdraft.seam hbracket),
        hdraft.words_gap_append hbracket, ih hdraft.of_next hbrackets, words_next]

theorem opening_notMem (hdraft : (next gap item rest).IsSeparated) (hgap : '[' ∉ gap)
    (hbracket : item.bracket? = none) : '[' ∉ gap ++ item.toChars := by
  intro hmem
  have hmem := (List.mem_append.mp hmem).resolve_left hgap
  cases item with
  | time code =>
      rcases Timecode.isDigit_or_eq_colon_of_mem_toChars hmem with hdigit | hcolon
      · exact absurd hdigit (by decide)
      · exact absurd hcolon (by decide)
  | word letters => exact absurd (hdraft.item_spelled.2 _ hmem) (by decide)
  | bracket => cases hbracket

/-- A bracket is found where it is written. -/
theorem cut?_toChars {placement color : List Char}
    (hdraft : (next gap (.bracket placement color) rest).IsSeparated) (hgap : '[' ∉ gap) :
    Bracket.cut? (next gap (.bracket placement color) rest).toChars =
      some ⟨gap, ⟨placement, color⟩, rest.toChars⟩ := by
  obtain ⟨⟨_, hnamed⟩, hcolor⟩ := hdraft.item_spelled
  exact Bracket.cut?_append_toChars hgap _ hnamed.isWord hcolor _

/-- The words to show are those written in the line. -/
theorem displayWords_toChars (hdraft : draft.IsSeparated) (hopening : draft.OpensAtBracket)
    (hbrackets : draft.brackets.length ≤ 1) : Cue.displayWords draft.toChars = draft.words := by
  induction draft with
  | last gap =>
      rw [toChars, Cue.displayWords, Bracket.cut?_eq_none hopening]
      exact hdraft.words_toChars rfl
  | next gap item rest ih =>
      have hgap : ∀ c ∈ gap, ¬ c.isAlpha := fun c hc => (hdraft.gap_neutral c hc).1
      cases hbracket : item.bracket? with
      | none =>
          have hlead := hdraft.opening_notMem hopening.1 hbracket
          rw [brackets_next, hbracket, Option.toList_none, List.nil_append] at hbrackets
          rw [toChars, ← List.append_assoc, Cue.displayWords_append hlead (hdraft.seam hbracket),
            hdraft.words_gap_append hbracket, ih hdraft.of_next (hopening.2 hbracket) hbrackets,
            words_next]
      | some names =>
          cases item with
          | bracket placement color =>
              rw [brackets_next, hbracket, List.length_append] at hbrackets
              -- Behind the bracket the line is searched for words only, so no other may follow.
              have hnone : rest.brackets = [] := List.eq_nil_of_length_eq_zero (by
                simp only [Option.toList_some, List.length_singleton] at hbrackets
                omega)
              rw [Cue.displayWords, hdraft.cut?_toChars hopening.1, words_next]
              simp only [words_eq_nil hgap, List.nil_append, Item.word?, Option.toList_none]
              exact hdraft.of_next.words_toChars hnone
          | time | word => cases hbracket

/-- The style is that of the first bracket written in the line. -/
theorem styleOf_toChars (hdraft : draft.IsSeparated) (hopening : draft.OpensAtBracket) :
    ∃ style, Cue.styleOf draft.toChars = .ok style ∧
      Cue.Styles draft.brackets.head? (style.map Prod.fst) (style.map Prod.snd) := by
  induction draft with
  | last gap =>
      refine ⟨none, ?_, .plain⟩
      rw [toChars, Cue.styleOf, Bracket.cut?_eq_none hopening]
  | next gap item rest ih =>
      cases hbracket : item.bracket? with
      | none =>
          have hlead := hdraft.opening_notMem hopening.1 hbracket
          rw [toChars, ← List.append_assoc, Cue.styleOf_append hlead, brackets_next, hbracket]
          exact ih hdraft.of_next (hopening.2 hbracket)
      | some names =>
          cases item with
          | bracket placement color =>
              obtain ⟨⟨found, hnamed⟩, _⟩ := hdraft.item_spelled
              refine ⟨some (found, String.ofList color), ?_, .named hnamed⟩
              rw [Cue.styleOf, hdraft.cut?_toChars hopening.1]
              simp only [Placement.ofName?_eq_some_iff.mpr hnamed]
          | time | word => cases hbracket

end IsSeparated

end Draft

namespace Cue

/-- The items of a line are read as they are written, in whatever order they stand and whatever
stands between them. -/
theorem parse_draft {draft : Draft} (hdraft : draft.IsLegible) {first second : Timecode}
    {others : List Timecode} (htimes : draft.times = first :: second :: others)
    (horder : first.offset ≤ second.offset) (hwords : draft.words ≠ []) :
    ∃ placement color, Styles draft.brackets.head? placement color ∧
      parse (String.ofList draft.toChars) = .ok
        ⟨first.offset, second.offset, String.ofList (List.intercalate [' '] draft.words),
          placement, color⟩ := by
  have hseparated := hdraft.toIsSeparated
  obtain ⟨style, hstyle, hstyles⟩ := hseparated.styleOf_toChars hdraft.opening
  have hshown := hseparated.displayWords_toChars hdraft.opening hdraft.brackets
  refine ⟨_, _, hstyles, ?_⟩
  rw [parse_eq_ok_iff, ofChars_eq_ok_iff, String.toList_ofList, hshown]
  exact ⟨first, second, others, style, hseparated.scan_toChars.trans htimes, horder, hwords,
    hstyle, rfl⟩

theorem parse_draft_touching_items :
    ∃ draft : Draft, draft.IsLegible ∧
      String.ofList draft.toChars = "Hi00:0100:02:99:99é[tOp, Red]x[a, b]\n" ∧
      parse "Hi00:0100:02:99:99é[tOp, Red]x[a, b]\n" =
        .ok ⟨1000, 2000, "Hi x a b", some .top, some "Red"⟩ := by
  have hdraft : Draft.IsLegible
      (.next [] (.word ['H', 'i']) <| .next [] (.time ⟨0, 1⟩) <| .next [] (.time ⟨0, 2⟩) <|
        .next [':'] (.time ⟨99, 99⟩) <| .next ['é'] (.bracket ['t', 'O', 'p'] ['R', 'e', 'd']) <|
        .next [] (.word ['x']) <| .next ['['] (.word ['a']) <| .next [',', ' '] (.word ['b']) <|
        .last [']', '\n']) := by
    refine ⟨⟨?_, ?_, ?_⟩, ?_, by decide⟩
    · have htop : Placement.top.IsNamedBy ['t', 'O', 'p'] := ⟨by decide, by decide⟩
      have hword {letters : List Char} (h : letters ≠ [] ∧ letters.all Char.isAlpha) :
          IsWord letters := ⟨h.1, List.all_eq_true.mp h.2⟩
      simp only [Draft.items, List.forall_mem_cons, Item.IsSpelled]
      exact ⟨hword (by decide), trivial, trivial, trivial, ⟨⟨_, htop⟩, hword (by decide)⟩,
        hword (by decide), hword (by decide), hword (by decide), List.forall_mem_nil _⟩
    · simp only [Draft.gaps, List.forall_mem_cons, List.not_mem_nil, false_implies, implies_true]
      decide
    · simp [Draft.KeepsApart, Draft.items, Draft.gaps, Item.word?]
    · simp [Draft.OpensAtBracket, Item.bracket?]
  refine ⟨_, hdraft, rfl, ?_⟩
  obtain ⟨placement, color, hstyles, hparse⟩ := parse_draft hdraft rfl (by decide) (by decide)
  cases hstyles with
  | named hname =>
      have hfound := Placement.ofName?_eq_some_iff.mpr hname
      cases hfound
      exact hparse

end Cue

end Captions
