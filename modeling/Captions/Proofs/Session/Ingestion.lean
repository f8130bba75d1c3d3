import Captions.Proofs.Session.Calls

/-! # Taking in lines

Lines are taken in one after the other, so an input may be handed over in parts. A session
that takes in an input arms the same triggers under the same numbers as one that is given the
lines one by one; what is not a cue makes no difference to it.
-/

namespace Captions.Session

theorem step_schedule_session (session : Session Recorder) (line : String) :
    (session.step (.schedule line)).2 =
      { session.mapDisplay Recorder.rewind with
        agenda := session.agenda.armAll (Cue.parse line).toOption.toList } := by
  rw [step, perform]
  cases Cue.parse line with
  | ok cue => rfl
  | error error => rfl

/-- Lines given one by one arm the cues among them. -/
theorem play_schedule (session : Session Recorder) (texts : List String) :
    (session.play (texts.map .schedule)).mapDisplay Recorder.rewind =
      { session.mapDisplay Recorder.rewind with
        agenda := session.agenda.armAll
          (texts.filterMap fun line => (Cue.parse line).toOption) } := by
  induction texts generalizing session with
  | nil => rfl
  | cons line rest ih =>
      rw [List.map_cons, play, ih, step_schedule_session, List.filterMap_cons]
      cases Cue.parse line with
      | ok cue => rfl
      | error error => rfl

/-- What a session makes of an input that breaks off behind some lines. -/
structure TakesIn (session : Session Recorder) (lines : List Text.LineRead)
    (texts : List String) : Prop where
  /-- The answer is the report. -/
  report : (session.step (.ingest lines)).1.result = .ingested (Reading.ofLines lines).report
  /-- Nothing fires and nothing is drawn. -/
  quiet : (session.step (.ingest lines)).1.fired = [] ∧
    (session.step (.ingest lines)).1.calls = []
  /-- The session is as if each of the lines had been scheduled for itself. -/
  line_by_line : (session.step (.ingest lines)).2 =
    (session.play (texts.map .schedule)).mapDisplay Recorder.rewind
  /-- The blank lines among them may be left out. -/
  without_blanks : (session.step (.ingest lines)).2 =
    (session.play ((Text.written texts).map .schedule)).mapDisplay Recorder.rewind
  /-- Lines that can be read may be taken in before, as an input of their own. -/
  in_parts : ∀ first : List String, (session.step (.ingest (first.map .ok ++ lines))).2 =
    ((session.step (.ingest (first.map .ok))).2.step (.ingest lines)).2

theorem takesIn_of_breaksOff (session : Session Recorder) {lines : List Text.LineRead}
    {texts : List String} {fault? : Option Text.ReadFault}
    (hlines : Text.BreaksOff lines texts fault?) : session.TakesIn lines texts := by
  have hcues := (Reading.accountsFor_of_breaksOff hlines).cues
  have hquiet : ¬ (Step.ingest lines).fires := Bool.false_ne_true
  refine ⟨rfl, ⟨?_, ?_⟩, ?_, ?_, ?_⟩
  · exact (step_of_not_fires session hquiet).1
  · exact (calls_step_of_not_fires session hquiet).1
  · rw [step_ingest, play_schedule, hcues, Reading.filterMap_parse]
  · rw [step_ingest, play_schedule, hcues]
    rfl
  · intro first
    rw [step_ingest, step_ingest, step_ingest, (Reading.continues first lines).cues,
      Agenda.armAll_append]
    rfl

/-- Nothing of an input is lost, delivered twice or put in another order. -/
theorem ingest_accounts_for_lines (session : Session Recorder) (lines : List Text.LineRead) :
    ∃ texts fault?, Text.BreaksOff lines texts fault? ∧
      (Reading.ofLines lines).AccountsFor texts fault? ∧
      (∀ first, Reading.Continues first lines) ∧
      session.TakesIn lines texts := by
  obtain ⟨texts, fault?, hlines⟩ := Text.exists_breaksOff lines
  refine ⟨texts, fault?, hlines, Reading.accountsFor_of_breaksOff hlines, ?_,
    takesIn_of_breaksOff session hlines⟩
  intro first
  exact Reading.continues first lines

end Captions.Session
