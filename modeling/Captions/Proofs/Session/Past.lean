import Captions.Proofs.Agenda.Ledger
import Captions.Proofs.Cue.WellFormed
import Captions.Proofs.Reading
import Captions.Proofs.Session.Deeds
import Captions.Session.Script
import Mathlib.Data.List.DropRight

/-! # The past of a session

A script is read as the past of a session: the cues it has scheduled, those of them
that the last firing has already seen, the cues it has cancelled and the triggers
that have fired.
-/

namespace Captions

namespace Session

/-- The cues that a step schedules. -/
def Step.cues : Step → List Cue
  | .schedule line =>
    match Cue.parse line with
    | .ok cue => [cue]
    | .error _ => []
  | .ingest lines => (Reading.ofLines lines).cues
  | _ => []

/-- Every cue that is scheduled was read from a line. -/
theorem Step.exists_line_of_mem_cues {step : Step} {cue : Cue} (hmem : cue ∈ step.cues) :
    ∃ line, Cue.parse line = .ok cue := by
  cases step with
  | schedule line =>
      rw [cues] at hmem
      split at hmem
      next own hline =>
        rw [List.mem_singleton.mp hmem]
        exact ⟨line, hline⟩
      next => cases hmem
  | ingest lines => exact Reading.exists_line_of_mem_cues hmem
  | cancel | advance | visible | failAfter | crash | finish => cases hmem

/-- No cue that is scheduled disappears before it appears. -/
theorem Step.showAt_le_hideAt {step : Step} {cue : Cue} (hmem : cue ∈ step.cues) :
    cue.showAt ≤ cue.hideAt := by
  obtain ⟨line, hline⟩ := exists_line_of_mem_cues hmem
  exact (Cue.wellFormed_of_parse hline).showAt_le_hideAt

/-- No cue that is scheduled disappears after the last time code. -/
theorem Step.hideAt_le_last {step : Step} {cue : Cue} (hmem : cue ∈ step.cues) :
    cue.hideAt ≤ Timecode.last.offset := by
  obtain ⟨line, hline⟩ := exists_line_of_mem_cues hmem
  exact (Cue.wellFormed_of_parse hline).hideAt_le

/-- Whether a step fires what is due. -/
def Step.fires : Step → Bool
  | .advance _ | .visible | .finish => true
  | _ => false

/-- The time to which a step moves the clock. -/
def Step.target (session : Session Recorder) : Step → Nat
  | .advance time => max session.clock time
  | .finish => max session.clock session.agenda.horizon
  | _ => session.clock

/-- The cues in the order of their numbers. -/
def scheduled (past : List Step) : List Cue :=
  past.flatMap Step.cues

/-- The cues that were there at the last firing. -/
def settled (past : List Step) : List Cue :=
  scheduled (past.rdropWhile fun step => !step.fires)

/-- The cues scheduled since the last firing. -/
def recent (past : List Step) : List Cue :=
  scheduled (past.rtakeWhile fun step => !step.fires)

/-- A cue was cancelled after it had been scheduled. -/
def Cancelled (past : List Step) (id : Nat) : Prop :=
  ∃ before after, past = before ++ .cancel id :: after ∧ id < (scheduled before).length

/-- The session after some steps. -/
def play (session : Session Recorder) : List Step → Session Recorder
  | [] => session
  | first :: rest => (session.step first).2.play rest

/-- The triggers that have fired, in order. -/
def fired (session : Session Recorder) (past : List Step) : List Trigger :=
  (session.run past).flatMap Answer.fired

theorem play_append (session : Session Recorder) (past others : List Step) :
    session.play (past ++ others) = (session.play past).play others := by
  induction past generalizing session with
  | nil => rfl
  | cons first rest ih => exact ih (session.step first).2

theorem run_append (session : Session Recorder) (past others : List Step) :
    session.run (past ++ others) = session.run past ++ (session.play past).run others := by
  induction past generalizing session with
  | nil => rfl
  | cons first rest ih => exact congrArg _ (ih (session.step first).2)

theorem play_concat (session : Session Recorder) (past : List Step) (step : Step) :
    session.play (past ++ [step]) = ((session.play past).step step).2 :=
  play_append session past [step]

theorem run_concat (session : Session Recorder) (past : List Step) (step : Step) :
    session.run (past ++ [step]) = session.run past ++ [((session.play past).step step).1] :=
  run_append session past [step]

theorem fired_concat (session : Session Recorder) (past : List Step) (step : Step) :
    session.fired (past ++ [step]) =
      session.fired past ++ ((session.play past).step step).1.fired := by
  rw [fired, run_concat, List.flatMap_append, List.flatMap_singleton]
  rfl

theorem scheduled_concat (past : List Step) (step : Step) :
    scheduled (past ++ [step]) = scheduled past ++ step.cues := by
  rw [scheduled, List.flatMap_append, List.flatMap_singleton]
  rfl

theorem settled_append_recent (past : List Step) :
    settled past ++ recent past = scheduled past := by
  induction past using List.reverseRecOn with
  | nil => rfl
  | append_singleton past step ih =>
      rw [settled, recent, List.rdropWhile_concat, List.rtakeWhile_concat, scheduled_concat]
      split
      next => rw [scheduled_concat, ← List.append_assoc, ← ih]; rfl
      next => rw [scheduled_concat]; exact List.append_nil _

theorem settled_concat_of_fires (past : List Step) {step : Step} (hfires : step.fires) :
    settled (past ++ [step]) = settled past ++ recent past ∧ recent (past ++ [step]) = [] := by
  have hcues : step.cues = [] := by
    cases step <;> first | rfl | cases hfires
  refine ⟨?_, ?_⟩
  · rw [settled, List.rdropWhile_concat_neg _ _ _ (by simp [hfires]), scheduled_concat, hcues,
      List.append_nil, settled_append_recent]
  · rw [recent, List.rtakeWhile_concat_neg _ _ _ (by simp [hfires])]
    rfl

theorem settled_concat_of_not_fires (past : List Step) {step : Step} (hquiet : ¬ step.fires) :
    settled (past ++ [step]) = settled past ∧
      recent (past ++ [step]) = recent past ++ step.cues := by
  refine ⟨?_, ?_⟩
  · rw [settled, List.rdropWhile_concat_pos _ _ _ (by simpa using hquiet)]
    rfl
  · rw [recent, List.rtakeWhile_concat_pos _ _ _ (by simpa using hquiet), scheduled_concat]
    rfl

theorem cancelled_concat {past : List Step} {step : Step} {id : Nat} :
    Cancelled (past ++ [step]) id ↔
      Cancelled past id ∨ step = .cancel id ∧ id < (scheduled past).length := by
  constructor
  · rintro ⟨before, after, heq, hlt⟩
    -- The cancelling step is the last one or lies before it.
    rcases List.eq_nil_or_concat after with rfl | ⟨rest, last, rfl⟩
    · obtain ⟨rfl, hstep⟩ := List.append_inj' heq rfl
      cases hstep
      exact .inr ⟨rfl, hlt⟩
    · rw [List.concat_eq_append, ← List.cons_append, ← List.append_assoc] at heq
      obtain ⟨rfl, _⟩ := List.append_inj' heq rfl
      exact .inl ⟨before, rest, rfl, hlt⟩
  · rintro (⟨before, after, rfl, hlt⟩ | ⟨rfl, hlt⟩)
    · exact ⟨before, after ++ [step], by simp, hlt⟩
    · exact ⟨past, [], rfl, hlt⟩

theorem takeInAll_session {δ : Type} (session : Session δ) (entries : List Entry) :
    (session.takeInAll entries).session =
      { session with agenda := session.agenda.armAll (entries.filterMap Entry.cue?) } := by
  induction entries generalizing session with
  | nil => rfl
  | cons entry rest ih =>
      rw [takeInAll, ih]
      cases entry with
      | accepted line cue => rfl
      | rejected line error => rfl

theorem takeInAll_fired {δ : Type} (session : Session δ) (entries : List Entry) :
    (session.takeInAll entries).fired = [] := by
  induction entries generalizing session with
  | nil => rfl
  | cons entry rest ih => exact ih (session.takeIn entry).session

/-- Taking in an input arms its cues and forgets what the recorder has written down. -/
theorem step_ingest (session : Session Recorder) (lines : List Text.LineRead) :
    (session.step (.ingest lines)).2 =
      { session.mapDisplay Recorder.rewind with
        agenda := session.agenda.armAll (Reading.ofLines lines).cues } :=
  takeInAll_session (session.mapDisplay Recorder.rewind) (Reading.ofLines lines).entries

/-- A step that fires moves the clock forward. -/
theorem exists_advance_of_fires (session : Session Recorder) {step : Step} (hfires : step.fires) :
    ∃ time, max session.clock time = step.target session ∧
      (session.step step).1.fired = ((session.mapDisplay Recorder.rewind).advance time).fired ∧
      (session.step step).1.events = ((session.mapDisplay Recorder.rewind).advance time).events ∧
      (session.step step).2 = ((session.mapDisplay Recorder.rewind).advance time).session := by
  cases step with
  | advance time => exact ⟨time, rfl, rfl, rfl, rfl⟩
  | visible => exact ⟨session.clock, Nat.max_self _, rfl, rfl, rfl⟩
  | finish => exact ⟨session.agenda.horizon, rfl, rfl, rfl, rfl⟩
  | schedule | ingest | cancel | failAfter | crash => cases hfires

theorem step_of_fires (session : Session Recorder) {step : Step} (hfires : step.fires) :
    (session.step step).1.fired = (session.agenda.fire session.clock (step.target session)).1 ∧
      (session.step step).2.agenda =
        (session.agenda.fire session.clock (step.target session)).2 ∧
      (session.step step).2.clock = step.target session := by
  obtain ⟨time, htarget, hfired, _, hsession⟩ := exists_advance_of_fires session hfires
  rw [hfired, hsession]
  exact advance_session (session.mapDisplay Recorder.rewind) htarget

/-- Other steps fire nothing and leave the record alone. They arm the cues that they
schedule or cancel one. -/
theorem step_of_not_fires (session : Session Recorder) {step : Step} (hquiet : ¬ step.fires) :
    (session.step step).1.fired = [] ∧ (session.step step).2.clock = session.clock ∧
      (session.step step).2.board.shown = session.board.shown ∧
      ((∃ id, step = .cancel id ∧ (session.step step).2.agenda = session.agenda.cancel id) ∨
        (∀ id, step ≠ .cancel id) ∧
          (session.step step).2.agenda = session.agenda.armAll step.cues) := by
  cases step with
  | schedule line =>
      rw [Session.step, perform, Step.cues]
      cases hline : Cue.parse line with
      | ok cue => exact ⟨rfl, rfl, rfl, .inr ⟨nofun, rfl⟩⟩
      | error error => exact ⟨rfl, rfl, rfl, .inr ⟨nofun, rfl⟩⟩
  | ingest lines =>
      have hfired : (session.step (.ingest lines)).1.fired = [] :=
        takeInAll_fired (session.mapDisplay Recorder.rewind) (Reading.ofLines lines).entries
      rw [hfired, step_ingest]
      exact ⟨rfl, rfl, rfl, .inr ⟨nofun, rfl⟩⟩
  | cancel id => exact ⟨rfl, rfl, rfl, .inl ⟨id, rfl, rfl⟩⟩
  | failAfter | crash => exact ⟨rfl, rfl, rfl, .inr ⟨nofun, rfl⟩⟩
  | advance | visible | finish => exact absurd rfl hquiet

end Session

end Captions
