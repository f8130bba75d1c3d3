import Captions.Proofs.Session.Omission

/-! # Cancelled cues

A cue that is cancelled before any of its triggers has fired leaves no trace: the script without
it shows the same in every step that is left. A cancellation concerns one cue only, so the
triggers of all others fire as they would have fired without it.
-/

namespace Captions.Session

/-- What an answer tells of the display: its calls, and its result if that tells of the board. -/
def Answer.sight (answer : Answer) : List Call × Option Result :=
  (answer.calls, if answer.result.isView then some answer.result else none)

/-- The triggers that fired in a step, without those of the cue numbered `id`. -/
def Answer.firedApart (id : Nat) (answer : Answer) : List Trigger :=
  answer.fired.filter (·.cue ≠ id)

/-- The answers to those steps of a script that are left when the cue numbered `id` is struck
out of it, where the first cue is numbered `next`. -/
def answersWithout (id next : Nat) (session : Session Recorder) : List Step → List Answer
  | [] => []
  | first :: rest =>
    (first.without id next).map (fun _ => (session.step first).1) ++
      (session.step first).2.answersWithout id (next + first.cues.length) rest

theorem answersWithout_concat (id next : Nat) (session : Session Recorder) (past : List Step)
    (step : Step) :
    session.answersWithout id next (past ++ [step]) = session.answersWithout id next past ++
      (step.without id (next + (scheduled past).length)).map
        fun _ => ((session.play past).step step).1 := by
  induction past generalizing session next with
  | nil => simp [answersWithout, scheduled, play]
  | cons first rest ih =>
      simp [answersWithout, ih, scheduled, play, Nat.add_assoc]

section Sights

variable {session other : Session Recorder} {step : Step} {id : Nat}

theorem sight_of_fires (hfires : step.fires) :
    (session.step step).1.sight =
      ((session.step step).2.board.display.calls.toList,
        some (step.view (session.step step).2)) := by
  rw [Answer.sight, isView_result, if_pos hfires, calls_step, result_of_fires hfires]

theorem sight_of_not_fires (hquiet : ¬ step.fires) : (session.step step).1.sight = ([], none) := by
  rw [Answer.sight, isView_result, if_neg hquiet, (calls_step_of_not_fires session hquiet).1]

/-- What is left of a step shows the same without a cue, if nothing is drawn or erased for it. -/
theorem sights_step_without {past : List Step} {fired : List Trigger}
    (hfollows : Follows past fired session)
    (hother : other.mapDisplay Recorder.rewind = session.without id)
    (hidle : ∀ deed ∈ session.deedsOf step, deed.trigger.cue = id → deed.IsIdle) (next : Nat) :
    (other.run (step.without id next)).map Answer.sight =
      (step.without id next).map fun _ => (session.step step).1.sight := by
  by_cases hfires : step.fires
  · have hpictures := (step_without_of_fires hfollows hother hfires hidle).1
    rw [pictures_of_fires hfires, pictures_of_fires hfires] at hpictures
    simp only [List.cons.injEq, Prod.mk.injEq, and_true] at hpictures
    simp [Step.without_of_fires hfires, run, sight_of_fires hfires, hpictures]
  · rcases step.without_cases id next with hnone | ⟨own, hone, hsame⟩
    · simp [hnone, run]
    · have hquiet : ¬ own.fires := hsame ▸ hfires
      simp [hone, run, sight_of_not_fires hfires, sight_of_not_fires hquiet]

end Sights

/-- A script without a cue shows the same in every step that is left, if nothing is drawn or
erased for the cue. -/
theorem sights_withoutCue (board : Board Recorder) {script : List Step} {id : Nat}
    (hidle : ∀ deed ∈ (start board).history script, deed.trigger.cue = id → deed.IsIdle) :
    ((start board).run (withoutCue id 0 script)).map Answer.sight =
      ((start board).answersWithout id 0 script).map Answer.sight := by
  induction script using List.reverseRecOn with
  | nil => rfl
  | append_singleton past step ih =>
      rw [history_concat] at hidle
      obtain ⟨hold, hnew⟩ := List.forall_mem_append.mp hidle
      have hother := (play_withoutCue board hold).1
      have hstep := sights_step_without (follows_play board past) hother hnew
      simp [withoutCue_concat, answersWithout_concat, run_append, ih hold, hstep]

/-- No trigger of a cue fires that was cancelled before the first of them. -/
theorem cue_ne_of_mem_fired (board : Board Recorder) {past : List Step} {id : Nat}
    (hscheduled : id < (scheduled past).length)
    (hearly : ∀ trigger ∈ (start board).fired past, trigger.cue ≠ id) (rest : List Step) :
    ∀ trigger ∈ (start board).fired (past ++ .cancel id :: rest), trigger.cue ≠ id := by
  induction rest using List.reverseRecOn with
  | nil =>
      have hquiet : ¬ (Step.cancel id).fires := nofun
      have hnone := (step_of_not_fires ((start board).play past) hquiet).1
      simpa [fired_concat, hnone] using hearly
  | append_singleton rest step ih =>
      rw [← List.cons_append, ← List.append_assoc, fired_concat]
      refine List.forall_mem_append.mpr ⟨ih, ?_⟩
      rintro trigger hmem rfl
      have hfollows := follows_play board (past ++ .cancel trigger.cue :: rest)
      have hfires := Follows.fires_of_mem_fired hmem
      exact ((hfollows.mem_fired_of_fires hfires).mp hmem).1.2.1 ⟨past, rest, rfl, hscheduled⟩

/-- Two sessions whose agendas differ in nothing but the triggers of the cue numbered `id`, and
in whether it was cancelled. -/
structure AgreesApart (id : Nat) (session other : Session Recorder) : Prop where
  clock : session.clock = other.clock
  size : session.agenda.size = other.agenda.size
  agenda : session.agenda.without id = other.agenda.without id

namespace AgreesApart

variable {id : Nat} {session other : Session Recorder} {past past' : List Step}
  {fired fired' : List Trigger}

theorem cancel (session : Session Recorder) (id : Nat) :
    (session.step (.cancel id)).2.AgreesApart id session where
  clock := rfl
  size := Agenda.size_cancel id session.agenda
  agenda := Agenda.without_cancel_self id session.agenda

/-- Both clocks go on to the same time. A script is played out up to the last time code, with
the cue as without it. -/
theorem target (hagrees : session.AgreesApart id other) (hfollows : Follows past fired session)
    (hfollows' : Follows past' fired' other) (step : Step) :
    step.target session = step.target other := by
  cases step with
  | finish =>
      rw [Step.target, Step.target, Agenda.horizon_eq hfollows.due_le_last,
        Agenda.horizon_eq hfollows'.due_le_last, hagrees.clock]
  | advance time => simp [Step.target, hagrees.clock]
  | schedule | ingest | cancel | visible | failAfter | crash => exact hagrees.clock

/-- In a step of both sessions the same triggers of the other cues fire, in the same order. -/
theorem firedApart_step (hagrees : session.AgreesApart id other)
    (hfollows : Follows past fired session) (hfollows' : Follows past' fired' other)
    (step : Step) :
    (session.step step).1.firedApart id = (other.step step).1.firedApart id := by
  by_cases hfires : step.fires
  · refine Trigger.filter_eq_of_without_eq ?_
    rw [(step_of_fires session hfires).1, (step_of_fires other hfires).1,
      ← (hfollows.ledger.without_fire id _).1, ← (hfollows'.ledger.without_fire id _).1,
      hagrees.agenda, hagrees.clock, hagrees.target hfollows hfollows']
  · simp [Answer.firedApart, step_of_not_fires session hfires, step_of_not_fires other hfires]

/-- Every step keeps the agreement. -/
theorem step (hagrees : session.AgreesApart id other) (hfollows : Follows past fired session)
    (hfollows' : Follows past' fired' other) (step : Step) :
    (session.step step).2.AgreesApart id (other.step step).2 := by
  by_cases hfires : step.fires
  · obtain ⟨_, hagenda, hclock⟩ := step_of_fires session hfires
    obtain ⟨_, hagenda', hclock'⟩ := step_of_fires other hfires
    refine ⟨?_, ?_, ?_⟩
    · rw [hclock, hclock', hagrees.target hfollows hfollows']
    · rw [hagenda, hagenda']
      exact hagrees.size
    · rw [hagenda, hagenda', ← (hfollows.ledger.without_fire id _).2,
        ← (hfollows'.ledger.without_fire id _).2, hagrees.agenda, hagrees.clock,
        hagrees.target hfollows hfollows']
  · obtain ⟨_, hclock, _, hagenda⟩ := step_of_not_fires session hfires
    obtain ⟨_, hclock', _, hagenda'⟩ := step_of_not_fires other hfires
    have hboth := hclock.trans (hagrees.clock.trans hclock'.symm)
    rcases hagenda with ⟨number, rfl, hcancel⟩ | ⟨hne, harmed⟩
    · obtain ⟨_, heq, hcancel'⟩ := hagenda'.resolve_right fun h => h.1 number rfl
      cases heq
      refine ⟨hboth, ?_, ?_⟩
      · rw [hcancel, hcancel', Agenda.size_cancel, Agenda.size_cancel, hagrees.size]
      · rw [hcancel, hcancel']
        by_cases hnumber : number = id
        · rw [hnumber, Agenda.without_cancel_self, Agenda.without_cancel_self, hagrees.agenda]
        · rw [Agenda.without_cancel hnumber, Agenda.without_cancel hnumber, hagrees.agenda]
    · obtain ⟨_, harmed'⟩ := hagenda'.resolve_left fun ⟨number, heq, _⟩ => hne number heq
      refine ⟨hboth, ?_, ?_⟩
      · rw [harmed, harmed', Agenda.size_armAll, Agenda.size_armAll, hagrees.size]
      · rw [harmed, harmed', Agenda.without_armAll, Agenda.without_armAll, hagrees.agenda,
          hagrees.size]

/-- Over whole scripts the triggers of the other cues fire in the same steps and in the same
order. -/
theorem firedApart_run (hagrees : session.AgreesApart id other)
    (hfollows : Follows past fired session) (hfollows' : Follows past' fired' other)
    (rest : List Step) :
    (session.run rest).map (Answer.firedApart id) =
      (other.run rest).map (Answer.firedApart id) := by
  induction rest generalizing session other past past' fired fired' with
  | nil => rfl
  | cons first rest ih =>
      have hnext := hagrees.step hfollows hfollows' first
      rw [run, run, List.map_cons, List.map_cons, hagrees.firedApart_step hfollows hfollows' first,
        ih hnext (hfollows.step first) (hfollows'.step first)]

end AgreesApart

/-- A script in which a cue is cancelled before any of its triggers has fired shows the same, in
every step that is left, as the script without the cue. And whenever a cue is cancelled, the
triggers of all other cues go on to fire in the same steps and in the same order. -/
theorem cancel_concerns_one_cue (board : Board Recorder) (past rest : List Step) (id : Nat) :
    (id < (scheduled past).length → (∀ trigger ∈ (start board).fired past, trigger.cue ≠ id) →
      ((start board).run (withoutCue id 0 (past ++ .cancel id :: rest))).map Answer.sight =
        ((start board).answersWithout id 0 (past ++ .cancel id :: rest)).map Answer.sight) ∧
    (((start board).play (past ++ [.cancel id])).run rest).map (Answer.firedApart id) =
      (((start board).play past).run rest).map (Answer.firedApart id) := by
  refine ⟨?_, ?_⟩
  · intro hscheduled hearly
    refine sights_withoutCue board ?_
    intro deed hdeed hcue
    exact absurd hcue (cue_ne_of_mem_fired board hscheduled hearly rest _ (trigger_mem_fired hdeed))
  · rw [play_concat]
    exact (AgreesApart.cancel _ id).firedApart_run
      ((follows_play board past).step (.cancel id)) (follows_play board past) rest

theorem cancel_concerns_one_cue_failing :
    (∀ trigger ∈ (opening ⟨⟨80, 24⟩, 20, 6, 59, 17⟩).fired
        [.schedule "00:01 00:03 Hi",
          .ingest [.ok "00:02 00:04 Hi [Top, Red]", .ok "00:02 00:06 Ho"],
          .advance 500, .failAfter (some 5)], trigger.cue ≠ 1) ∧
      ((opening ⟨⟨80, 24⟩, 20, 6, 59, 17⟩).run
        [.schedule "00:01 00:03 Hi", .ingest [.ok "00:02 00:06 Ho"], .advance 500,
          .failAfter (some 5), .advance 2500, .failAfter none, .cancel 1, .finish]).map
        Answer.sight =
      ((opening ⟨⟨80, 24⟩, 20, 6, 59, 17⟩).answersWithout 1 0
        [.schedule "00:01 00:03 Hi",
          .ingest [.ok "00:02 00:04 Hi [Top, Red]", .ok "00:02 00:06 Ho"],
          .advance 500, .failAfter (some 5), .cancel 1, .advance 2500, .cancel 1, .failAfter none,
          .cancel 2, .finish]).map Answer.sight ∧
      (((opening ⟨⟨80, 24⟩, 20, 6, 59, 17⟩).play
          [.schedule "00:01 00:03 Hi",
            .ingest [.ok "00:02 00:04 Hi [Top, Red]", .ok "00:02 00:06 Ho"], .advance 500,
            .failAfter (some 5), .cancel 1]).run
        [.advance 2500, .cancel 1, .failAfter none, .cancel 2, .finish]).map
          (Answer.firedApart 1) =
        [[⟨0, 1000, .showCue ⟨1000, 3000, "Hi", none, none⟩⟩,
          ⟨2, 2000, .showCue ⟨2000, 6000, "Ho", none, none⟩⟩], [], [], [],
          [⟨0, 3000, .hideText "Hi"⟩]] := by
  obtain ⟨hsights, hfired⟩ := cancel_concerns_one_cue ⟨⟨⟨80, 24⟩, 20, 6, 59, 17⟩, {}, {}⟩
    [.schedule "00:01 00:03 Hi",
      .ingest [.ok "00:02 00:04 Hi [Top, Red]", .ok "00:02 00:06 Ho"], .advance 500,
      .failAfter (some 5)]
    [.advance 2500, .cancel 1, .failAfter none, .cancel 2, .finish] 1
  have hearly : ∀ trigger ∈ (opening ⟨⟨80, 24⟩, 20, 6, 59, 17⟩).fired
      [.schedule "00:01 00:03 Hi",
        .ingest [.ok "00:02 00:04 Hi [Top, Red]", .ok "00:02 00:06 Ho"],
        .advance 500, .failAfter (some 5)], trigger.cue ≠ 1 := by
    decide +kernel
  refine ⟨hearly, hsights (by decide +kernel) hearly, hfired.trans ?_⟩
  decide +kernel

end Captions.Session
