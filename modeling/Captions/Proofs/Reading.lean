import Captions.Proofs.Timecode
import Captions.Reading

/-! # What comes of an input

An input breaks off at its first line that cannot be read, or ends without one. The lines
before that settle what comes of it: each of them that is not blank gives one entry, and only
the numbers of the entries depend on what stood before the input.
-/

namespace Captions

namespace Text

/-- The texts are the lines before the first that cannot be read. If there is such a line, the
fault is its own. -/
inductive BreaksOff : List LineRead → List String → Option ReadFault → Prop
  | never (texts : List String) : BreaksOff (texts.map .ok) texts none
  | behind (texts : List String) (fault : ReadFault) (rest : List LineRead) :
      BreaksOff (texts.map .ok ++ .error fault :: rest) texts (some fault)

theorem exists_breaksOff (lines : List LineRead) : ∃ texts fault?, BreaksOff lines texts fault? := by
  induction lines with
  | nil => exact ⟨[], none, .never []⟩
  | cons first rest ih =>
      cases first with
      | error fault => exact ⟨[], some fault, .behind [] fault rest⟩
      | ok line =>
          obtain ⟨texts, fault?, hrest⟩ := ih
          refine ⟨line :: texts, fault?, ?_⟩
          cases hrest with
          | never => exact .never (line :: texts)
          | behind _ fault rest => exact .behind (line :: texts) fault rest

/-- Lines that can be read in front of an input only put off its end. -/
theorem BreaksOff.append {lines : List LineRead} {texts : List String} {fault? : Option ReadFault}
    (hlines : BreaksOff lines texts fault?) (first : List String) :
    BreaksOff (first.map .ok ++ lines) (first ++ texts) fault? := by
  cases hlines with
  | never =>
      rw [← List.map_append]
      exact .never (first ++ texts)
  | behind _ fault rest =>
      rw [← List.append_assoc, ← List.map_append]
      exact .behind (first ++ texts) fault rest

theorem BreaksOff.eq_map_ok {lines : List LineRead} {texts : List String}
    (hlines : BreaksOff lines texts none) : lines = texts.map .ok := by
  cases hlines with
  | never => rfl

theorem BreaksOff.error_mem {lines : List LineRead} {texts : List String} {fault : ReadFault}
    (hlines : BreaksOff lines texts (some fault)) : .error fault ∈ lines := by
  cases hlines with
  | behind _ _ rest => exact List.mem_append_right _ List.mem_cons_self

/-- The lines that are not blank. -/
def written (texts : List String) : List String :=
  texts.filter fun line => !isBlank line

theorem written_append (first second : List String) :
    written (first ++ second) = written first ++ written second :=
  List.filter_append ..

theorem not_isDigit_of_isBlankChar {c : Char} (hblank : isBlankChar c) : ¬ c.isDigit := by
  intro hdigit
  obtain ⟨hlow, hhigh⟩ := (Bool.and_eq_true _ _).mp hdigit
  have hlow : 48 ≤ c.toNat := of_decide_eq_true hlow
  have hhigh : c.toNat ≤ 57 := of_decide_eq_true hhigh
  simp only [isBlankChar, blankRanges, List.any_cons, List.any_nil, Bool.or_eq_true,
    Bool.and_eq_true, decide_eq_true_eq, Bool.false_eq_true, or_false] at hblank
  omega

end Text

/-- A blank line is not a cue. -/
theorem Cue.parse_of_isBlank {line : String} (hblank : Text.isBlank line) :
    parse line = .error ⟨line, .missingTimecode 0⟩ := by
  have hscan : Timecode.scan line.toList = [] := by
    refine Timecode.scan_of_no_digits ?_
    intro c hc
    exact Text.not_isDigit_of_isBlankChar (List.all_eq_true.mp hblank c hc)
  simp [parse, ofChars, hscan]

/-- The entries of lines that can all be read, of which the first has the given number. -/
def Entry.ofTexts (number : Nat) (texts : List String) : List Entry :=
  ((texts.zipIdx number).filter fun line => !Text.isBlank line.1).map
    fun line => ofLine line.2 line.1

theorem Entry.cue?_ofLine (number : Nat) (line : String) :
    (ofLine number line).cue? = (Cue.parse line).toOption := by
  rw [ofLine]
  cases Cue.parse line with
  | ok cue => rfl
  | error error => rfl

theorem Entry.ofTexts_cons (number : Nat) (line : String) (rest : List String) :
    ofTexts number (line :: rest) =
      if Text.isBlank line then ofTexts (number + 1) rest
      else ofLine number line :: ofTexts (number + 1) rest := by
  rw [ofTexts, List.zipIdx_cons, List.filter_cons]
  cases Text.isBlank line with
  | true => rfl
  | false => rfl

namespace Reading

/-- The cues on lines that can all be read. -/
def cuesOn (texts : List String) : List Cue :=
  (Text.written texts).filterMap fun line => (Cue.parse line).toOption

/-- The lines that are neither blank nor cues. -/
def malformedAmong (texts : List String) : List String :=
  (Text.written texts).filter fun line => !(Cue.parse line).isOk

theorem cuesOn_append (first second : List String) :
    cuesOn (first ++ second) = cuesOn first ++ cuesOn second := by
  rw [cuesOn, Text.written_append, List.filterMap_append, cuesOn, cuesOn]

theorem malformedAmong_append (first second : List String) :
    malformedAmong (first ++ second) = malformedAmong first ++ malformedAmong second := by
  rw [malformedAmong, Text.written_append, List.filter_append, malformedAmong, malformedAmong]

/-- Blank lines are among those that are not cues. -/
theorem filterMap_parse (texts : List String) :
    (texts.filterMap fun line => (Cue.parse line).toOption) = cuesOn texts := by
  rw [cuesOn, Text.written, List.filterMap_filter]
  congr 1
  funext line
  cases hblank : Text.isBlank line with
  | true => rw [Cue.parse_of_isBlank hblank]; rfl
  | false => rfl

theorem exists_line_of_mem_cuesOn {texts : List String} {cue : Cue} (hmem : cue ∈ cuesOn texts) :
    ∃ line ∈ Text.written texts, Cue.parse line = .ok cue := by
  obtain ⟨line, hline, hcue⟩ := List.mem_filterMap.mp hmem
  refine ⟨line, hline, ?_⟩
  cases hparse : Cue.parse line with
  | ok own =>
      rw [hparse] at hcue
      rw [Option.some.inj hcue]
  | error error =>
      rw [hparse] at hcue
      cases hcue

/-- Every line that is not blank is a cue or malformed. -/
theorem length_written (texts : List String) :
    (Text.written texts).length = (cuesOn texts).length + (malformedAmong texts).length := by
  rw [cuesOn, malformedAmong]
  induction Text.written texts with
  | nil => rfl
  | cons line rest ih =>
      rw [List.filterMap_cons, List.filter_cons, List.length_cons, ih]
      cases Cue.parse line with
      | ok cue => exact Nat.add_right_comm ..
      | error error => rfl

/-- Lines that can be read give their entries, and the numbers go on behind them. -/
theorem numbered_map_ok_append (number : Nat) (texts : List String) (rest : List Text.LineRead) :
    numbered number (texts.map .ok ++ rest) =
      ⟨Entry.ofTexts number texts ++ (numbered (number + texts.length) rest).entries,
        (numbered (number + texts.length) rest).failure⟩ := by
  induction texts generalizing number with
  | nil => rfl
  | cons line others ih =>
      have hnumber : number + (line :: others).length = number + 1 + others.length := by
        rw [List.length_cons]
        omega
      rw [List.map_cons, List.cons_append, numbered, ih, hnumber, Entry.ofTexts_cons]
      split
      next => rfl
      next => rfl

theorem numbered_of_breaksOff {lines : List Text.LineRead} {texts : List String}
    {fault? : Option Text.ReadFault} (hlines : Text.BreaksOff lines texts fault?) (number : Nat) :
    numbered number lines =
      ⟨Entry.ofTexts number texts, fault?.map fun fault => ⟨number + texts.length, fault⟩⟩ := by
  cases hlines with
  | never =>
      have hall := numbered_map_ok_append number texts []
      rw [List.append_nil] at hall
      rw [hall, numbered, List.append_nil]
      rfl
  | behind _ fault rest =>
      rw [numbered_map_ok_append, numbered, List.append_nil]
      rfl

theorem map_fst_filter_zipIdx (number : Nat) (texts : List String) :
    ((texts.zipIdx number).filter fun line => !Text.isBlank line.1).map Prod.fst =
      Text.written texts := by
  have hfilter := List.filter_map (f := Prod.fst) (p := fun line => !Text.isBlank line)
    (l := texts.zipIdx number)
  rw [List.zipIdx_map_fst] at hfilter
  exact hfilter.symm

theorem cues_ofTexts (number : Nat) (texts : List String) :
    (Entry.ofTexts number texts).filterMap Entry.cue? = cuesOn texts := by
  rw [Entry.ofTexts, List.filterMap_map, cuesOn, ← map_fst_filter_zipIdx number texts,
    List.filterMap_map]
  congr 1
  funext line
  exact Entry.cue?_ofLine line.2 line.1

theorem length_ofTexts (number : Nat) (texts : List String) :
    (Entry.ofTexts number texts).length = (Text.written texts).length := by
  rw [Entry.ofTexts, List.length_map, ← map_fst_filter_zipIdx number texts, List.length_map]

/-- What is delivered, reported and logged of an input that breaks off. -/
structure AccountsFor (reading : Reading) (texts : List String) (fault? : Option Text.ReadFault) :
    Prop where
  /-- The cues are those on the lines that are not blank, in their order. -/
  cues : reading.cues = cuesOn texts
  /-- The report counts these cues and the lines that are not cues, or it names the first line
  that cannot be read by its number among all lines. -/
  report : reading.report =
    match fault? with
    | none => .ok ⟨(cuesOn texts).length, (malformedAmong texts).length⟩
    | some fault => .error ⟨texts.length + 1, fault⟩
  /-- The log has one event for each line that is not blank, in the order of the lines. -/
  events : reading.events =
    ((texts.zipIdx 1).filter fun line => !Text.isBlank line.1).map fun line =>
      match Cue.parse line.1 with
      | .ok _ => .acceptedCue line.2
      | .error error => .malformedCue line.2 error

theorem failure_of_breaksOff {lines : List Text.LineRead} {texts : List String}
    {fault? : Option Text.ReadFault} (hlines : Text.BreaksOff lines texts fault?) :
    (ofLines lines).failure = fault?.map fun fault => ⟨texts.length + 1, fault⟩ := by
  rw [ofLines, numbered_of_breaksOff hlines, Nat.add_comm]

theorem accountsFor_of_breaksOff {lines : List Text.LineRead} {texts : List String}
    {fault? : Option Text.ReadFault} (hlines : Text.BreaksOff lines texts fault?) :
    (ofLines lines).AccountsFor texts fault? := by
  rw [ofLines, numbered_of_breaksOff hlines]
  refine ⟨cues_ofTexts 1 texts, ?_, ?_⟩
  · cases fault? with
    | none =>
        have hrejected : (Entry.ofTexts 1 texts).length - (cuesOn texts).length =
            (malformedAmong texts).length := by
          rw [length_ofTexts, length_written, Nat.add_sub_cancel_left]
        simp only [report, Option.map_none, counts, cues, cues_ofTexts, hrejected]
    | some fault => simp only [report, Option.map_some, Nat.add_comm]
  · rw [events, Entry.ofTexts, List.map_map]
    congr 1
    funext line
    rw [Function.comp_apply, Entry.ofLine]
    cases Cue.parse line.1 with
    | ok cue => rfl
    | error error => rfl

/-- How an input goes on after lines that can all be read. -/
structure Continues (first : List String) (lines : List Text.LineRead) : Prop where
  /-- The first part alone gives its counts. -/
  clean : (ofLines (first.map .ok)).report = .ok (ofLines (first.map .ok)).counts
  /-- The cues of the second part are delivered after those of the first. -/
  cues : (ofLines (first.map .ok ++ lines)).cues =
    (ofLines (first.map .ok)).cues ++ (ofLines lines).cues
  /-- The counts are added. The number of a line that cannot be read counts the first part. -/
  report : (ofLines (first.map .ok ++ lines)).report =
    match (ofLines lines).report with
    | .ok counts =>
      .ok ⟨(ofLines (first.map .ok)).counts.accepted + counts.accepted,
        (ofLines (first.map .ok)).counts.rejected + counts.rejected⟩
    | .error error => .error { error with line := first.length + error.line }
  /-- The log goes on with the number of the next line. -/
  events : (ofLines (first.map .ok ++ lines)).events =
    (ofLines (first.map .ok)).events ++ (numbered (1 + first.length) lines).events

theorem report_map_ok (texts : List String) :
    (ofLines (texts.map .ok)).report = .ok (ofLines (texts.map .ok)).counts := by
  rw [report, ofLines, numbered_of_breaksOff (.never texts)]
  rfl

theorem continues (first : List String) (lines : List Text.LineRead) : Continues first lines := by
  obtain ⟨texts, fault?, hlines⟩ := Text.exists_breaksOff lines
  have hfirst := accountsFor_of_breaksOff (.never first)
  have hsecond := accountsFor_of_breaksOff hlines
  have hboth := accountsFor_of_breaksOff (hlines.append first)
  have hclean := report_map_ok first
  have hcounts : (ofLines (first.map .ok)).counts =
      ⟨(cuesOn first).length, (malformedAmong first).length⟩ :=
    Except.ok.inj (hclean.symm.trans hfirst.report)
  refine ⟨hclean, ?_, ?_, ?_⟩
  · rw [hboth.cues, hfirst.cues, hsecond.cues, cuesOn_append]
  · rw [hboth.report, hsecond.report, hcounts]
    cases fault? with
    | none => simp only [cuesOn_append, malformedAmong_append, List.length_append]
    | some fault => simp only [List.length_append, Nat.add_assoc]
  · rw [ofLines, ofLines, numbered_map_ok_append, numbered_of_breaksOff (.never first)]
    exact List.map_append

theorem cues_cons (line : String) (rest : List Text.LineRead) :
    (ofLines (.ok line :: rest)).cues = (ofLines [.ok line]).cues ++ (ofLines rest).cues :=
  (continues [line] rest).cues

theorem length_cues_singleton (line : String) : (ofLines [.ok line]).cues.length ≤ 1 := by
  have hcues : (ofLines [.ok line]).cues = cuesOn [line] :=
    (accountsFor_of_breaksOff (.never [line])).cues
  have hwritten : (Text.written [line]).length ≤ 1 := List.length_filter_le _ [line]
  rw [length_written] at hwritten
  rw [hcues]
  omega

/-- Every cue of an input was read from a line. -/
theorem exists_line_of_mem_cues {lines : List Text.LineRead} {cue : Cue}
    (hmem : cue ∈ (ofLines lines).cues) : ∃ line, Cue.parse line = .ok cue := by
  obtain ⟨texts, _, hlines⟩ := Text.exists_breaksOff lines
  rw [(accountsFor_of_breaksOff hlines).cues] at hmem
  obtain ⟨line, _, hparse⟩ := exists_line_of_mem_cuesOn hmem
  exact ⟨line, hparse⟩

end Reading

end Captions
