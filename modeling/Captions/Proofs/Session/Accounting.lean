import Captions.Proofs.Session.Past
import Mathlib.Data.List.Nodup

/-! # Accounting for the triggers of a session

Whatever the steps of a script are, the agenda of the session follows them: a
trigger fires in the first firing step at which it is due, unless its cue was
cancelled before that.
-/

namespace Captions.Session

/-- The agenda of a session is in order with what has happened. -/
structure Follows (past : List Step) (fired : List Trigger) (session : Session Recorder) :
    Prop where
  ledger : session.agenda.Ledger (settled past) (recent past) fired session.clock
  mem_cancelled : ∀ id, id ∈ session.agenda.cancelled ↔ Cancelled past id

theorem follows_start (board : Board Recorder) : Follows [] [] (start board) where
  ledger := Agenda.ledger_empty 0
  mem_cancelled := by
    intro id
    refine iff_of_false nofun ?_
    rintro ⟨before, after, heq, _⟩
    cases before <;> cases heq

theorem le_target (session : Session Recorder) (step : Step) :
    session.clock ≤ step.target session := by
  cases step with
  | advance | finish => exact Nat.le_max_left _ _
  | schedule | ingest | cancel | visible | failAfter | crash => exact Nat.le_refl _

/-- The clock never goes back. -/
theorem clock_le_clock_step (session : Session Recorder) (step : Step) :
    session.clock ≤ (session.step step).2.clock := by
  by_cases hfires : step.fires
  · rw [(step_of_fires session hfires).2.2]
    exact le_target session step
  · rw [(step_of_not_fires session hfires).2.1]

namespace Follows

variable {past : List Step} {fired : List Trigger} {session : Session Recorder}

theorem size_eq (hfollows : Follows past fired session) :
    session.agenda.size = (scheduled past).length := by
  rw [hfollows.ledger.size_eq, ← settled_append_recent, List.length_append]

/-- Every step keeps the agenda in order. -/
theorem step (hfollows : Follows past fired session) (step : Step) :
    Follows (past ++ [step]) (fired ++ (session.step step).1.fired) (session.step step).2 := by
  by_cases hfires : step.fires
  · obtain ⟨hfired, hagenda, hclock⟩ := step_of_fires session hfires
    obtain ⟨hsettled, hrecent⟩ := settled_concat_of_fires past hfires
    refine ⟨?_, ?_⟩
    · rw [hsettled, hrecent, hfired, hagenda, hclock]
      exact hfollows.ledger.fire (le_target session step)
    · intro id
      rw [hagenda, cancelled_concat, ← hfollows.mem_cancelled]
      refine (or_iff_left ?_).symm
      rintro ⟨rfl, _⟩
      cases hfires
  · obtain ⟨hfired, hclock, _, hstep⟩ := step_of_not_fires session hfires
    obtain ⟨hsettled, hrecent⟩ := settled_concat_of_not_fires past hfires
    rw [hfired, List.append_nil]
    rcases hstep with ⟨id, rfl, hagenda⟩ | ⟨hne, hagenda⟩
    · have hcues : (Step.cancel id).cues = [] := rfl
      refine ⟨?_, ?_⟩
      · rw [hsettled, hrecent, hagenda, hclock, hcues, List.append_nil]
        exact hfollows.ledger.cancel id
      · intro other
        rw [hagenda, Agenda.mem_cancelled_cancel, cancelled_concat, hfollows.mem_cancelled,
          hfollows.size_eq]
        refine or_congr_right ?_
        constructor
        · rintro ⟨rfl, hlt⟩
          exact ⟨rfl, hlt⟩
        · rintro ⟨heq, hlt⟩
          cases heq
          exact ⟨rfl, hlt⟩
    · refine ⟨?_, ?_⟩
      · rw [hsettled, hrecent, hagenda, hclock]
        exact hfollows.ledger.armAll fun cue hcue => Step.showAt_le_hideAt hcue
      · intro other
        rw [hagenda, Agenda.cancelled_armAll, cancelled_concat, ← hfollows.mem_cancelled]
        refine (or_iff_left ?_).symm
        rintro ⟨heq, _⟩
        exact hne other heq

/-- A step that fires fires exactly what is left of the triggers that are due. -/
theorem mem_fired_of_fires (hfollows : Follows past fired session) {step : Step}
    (hfires : step.fires) {trigger : Trigger} :
    trigger ∈ (session.step step).1.fired ↔
      (trigger ∈ Trigger.ofCues 0 (scheduled past) ∧ ¬ Cancelled past trigger.cue ∧
        trigger ∉ fired) ∧ trigger.due ≤ (session.step step).2.clock := by
  obtain ⟨hfired, _, hclock⟩ := step_of_fires session hfires
  rw [hfired, hclock, hfollows.ledger.mem_fire (le_target session step), settled_append_recent,
    hfollows.mem_cancelled]

/-- Nothing that is left is due after the last time code. -/
theorem due_le_last (hfollows : Follows past fired session) :
    ∀ trigger ∈ session.agenda.fresh ++ session.agenda.waiting,
      trigger.due ≤ Timecode.last.offset := by
  intro trigger htrigger
  obtain ⟨harmed, _⟩ := hfollows.ledger.mem_pending.mp (List.mem_append.mp htrigger)
  rw [settled_append_recent] at harmed
  obtain ⟨cue, hcue, hpair⟩ := Trigger.mem_ofCues_zero.mp harmed
  obtain ⟨step, _, hstep⟩ := List.mem_flatMap.mp (List.mem_of_getElem? hcue)
  rcases Trigger.mem_pair.mp hpair with hshow | hhide
  · rw [hshow]
    exact Nat.le_trans (Step.showAt_le_hideAt hstep) (Step.hideAt_le_last hstep)
  · rw [hhide]
    exact Step.hideAt_le_last hstep

theorem mem_scheduled (hfollows : Follows past fired session) {trigger : Trigger}
    (hmem : trigger ∈ fired) : trigger ∈ Trigger.ofCues 0 (scheduled past) := by
  rw [← settled_append_recent]
  exact Agenda.Ledger.mem_armed.mpr (.inl (hfollows.ledger.fired_mem trigger hmem))

theorem mem_scheduled_of_showCue (hfollows : Follows past fired session) {trigger : Trigger}
    {cue : Cue} (hmem : trigger ∈ fired) (haction : trigger.action = .showCue cue) :
    cue ∈ scheduled past :=
  Trigger.mem_cues_of_showCue (hfollows.mem_scheduled hmem) haction

theorem showTrigger_mem (hfollows : Follows past fired session) {id : Nat} {cue : Cue}
    (hcue : (scheduled past)[id]? = some cue) (hhide : cue.hideTrigger id ∈ fired) :
    cue.showTrigger id ∈ fired := by
  rw [← settled_append_recent] at hcue
  exact hfollows.ledger.showTrigger_mem_fired hcue hhide

theorem fires_of_mem_fired {step : Step} {trigger : Trigger}
    (hmem : trigger ∈ (session.step step).1.fired) : step.fires := by
  by_contra hquiet
  rw [(step_of_not_fires session hquiet).1] at hmem
  cases hmem

theorem mem_append_fired_of_due (hfollows : Follows past fired session) {step : Step}
    (hfires : step.fires) {trigger : Trigger} (harmed : trigger ∈ Trigger.ofCues 0 (scheduled past))
    (hcancelled : ¬ Cancelled past trigger.cue)
    (hdue : trigger.due ≤ (session.step step).2.clock) :
    trigger ∈ fired ++ (session.step step).1.fired := by
  by_cases hfired : trigger ∈ fired
  · exact List.mem_append_left _ hfired
  · exact List.mem_append_right _
      ((hfollows.mem_fired_of_fires hfires).mpr ⟨⟨harmed, hcancelled, hfired⟩, hdue⟩)

/-- At the end everything that was not cancelled has fired. -/
theorem mem_append_fired_finish (hfollows : Follows past fired session) {trigger : Trigger}
    (harmed : trigger ∈ Trigger.ofCues 0 (scheduled past))
    (hcancelled : ¬ Cancelled past trigger.cue) :
    trigger ∈ fired ++ (session.step .finish).1.fired := by
  by_cases hfired : trigger ∈ fired
  · exact List.mem_append_left _ hfired
  · refine hfollows.mem_append_fired_of_due rfl harmed hcancelled ?_
    rw [← settled_append_recent] at harmed
    rw [← hfollows.mem_cancelled] at hcancelled
    have hpending := hfollows.ledger.mem_pending.mpr ⟨harmed, hcancelled, hfired⟩
    have hclock : (session.step .finish).2.clock = max session.clock session.agenda.horizon :=
      (step_of_fires session rfl).2.2
    rw [hclock]
    exact Nat.le_trans (Agenda.due_le_horizon (List.mem_append.mpr hpending))
      (Nat.le_max_right _ _)

/-- The triggers of a firing step that were armed since the last one and are already
late fire by rank, the others by time. -/
theorem fired_order (hfollows : Follows past fired session) {step : Step} (hfires : step.fires) :
    ∃ late timed, (session.step step).1.fired = late ++ timed ∧
      (late.Pairwise fun a b => a.rank < b.rank) ∧ timed.Pairwise Trigger.Precedes ∧
      ∀ trigger, trigger ∈ late ↔
        trigger ∈ Trigger.ofCues (settled past).length (recent past) ∧
          ¬ Cancelled past trigger.cue ∧ trigger.due ≤ session.clock := by
  refine ⟨_, _, (step_of_fires session hfires).1, hfollows.ledger.pairwise_late,
    hfollows.ledger.pairwise_queue.filter _, ?_⟩
  intro trigger
  rw [Agenda.mem_late, hfollows.ledger.mem_fresh, hfollows.mem_cancelled, and_assoc]

end Follows

theorem follows_play (board : Board Recorder) (past : List Step) :
    Follows past ((start board).fired past) ((start board).play past) := by
  induction past using List.reverseRecOn with
  | nil => exact follows_start board
  | append_singleton past step ih =>
      rw [fired_concat, play_concat]
      exact ih.step step

/-- How the triggers are accounted for when a session goes on with a step. -/
structure KeepsAccount (board : Board Recorder) (past : List Step) (step : Step) : Prop where
  armed : ∀ trigger ∈ (start board).fired (past ++ [step]),
    trigger ∈ Trigger.ofCues 0 (scheduled past)
  once : (((start board).fired (past ++ [step])).map Trigger.rank).Nodup
  due : ∀ trigger ∈ (((start board).play past).step step).1.fired,
    trigger.due ≤ (((start board).play past).step step).2.clock
  uncancelled : ∀ trigger ∈ (((start board).play past).step step).1.fired,
    ¬ Cancelled past trigger.cue
  show_first : ∀ (id : Nat) (cue : Cue), (scheduled past)[id]? = some cue →
    cue.hideTrigger id ∈ (start board).fired (past ++ [step]) →
    (Trigger.pair id cue).Sublist ((start board).fired (past ++ [step]))
  none_left : step.fires → ∀ trigger ∈ Trigger.ofCues 0 (scheduled past),
    ¬ Cancelled past trigger.cue →
    trigger.due ≤ (((start board).play past).step step).2.clock →
    trigger ∈ (start board).fired (past ++ [step])
  order : step.fires → ∃ late timed,
    (((start board).play past).step step).1.fired = late ++ timed ∧
    (late.Pairwise fun a b => a.rank < b.rank) ∧ timed.Pairwise Trigger.Precedes ∧
    ∀ trigger, trigger ∈ late ↔
      trigger ∈ Trigger.ofCues (settled past).length (recent past) ∧
        ¬ Cancelled past trigger.cue ∧ trigger.due ≤ ((start board).play past).clock
  finished : step = .finish → ∀ trigger ∈ Trigger.ofCues 0 (scheduled past),
    ((start board).fired (past ++ [step])).count trigger = 1 ∨
      Cancelled past trigger.cue ∧ trigger ∉ (start board).fired (past ++ [step])

/-- However a script goes on, each trigger fires at most once, when it is due and
unless its cue was cancelled before, the show of a cue before its hide. -/
theorem keepsAccount (board : Board Recorder) (past : List Step) (step : Step) :
    KeepsAccount board past step := by
  have hfollows := follows_play board past
  have hnext := follows_play board (past ++ [step])
  have hconcat := fired_concat (start board) past step
  have hnew : ∀ trigger ∈ (((start board).play past).step step).1.fired,
      (trigger ∈ Trigger.ofCues 0 (scheduled past) ∧ ¬ Cancelled past trigger.cue ∧
        trigger ∉ (start board).fired past) ∧
        trigger.due ≤ (((start board).play past).step step).2.clock := by
    intro trigger htrigger
    exact (hfollows.mem_fired_of_fires (Follows.fires_of_mem_fired htrigger)).mp htrigger
  have hranks := hnext.ledger.fired_inTurn.nodup_rank
  refine ⟨?_, hranks, ?_, ?_, ?_, ?_, ?_, ?_⟩
  · intro trigger htrigger
    rw [hconcat] at htrigger
    rcases List.mem_append.mp htrigger with hmem | hmem
    · exact hfollows.mem_scheduled hmem
    · exact (hnew trigger hmem).1.1
  · intro trigger htrigger
    exact (hnew trigger htrigger).2
  · intro trigger htrigger
    exact (hnew trigger htrigger).1.2.1
  · intro id cue hcue hhide
    refine hnext.ledger.fired_inTurn.pair_sublist (hnext.showTrigger_mem ?_ hhide) hhide
    rw [scheduled_concat, List.getElem?_append_left (List.getElem?_eq_some_iff.mp hcue).1]
    exact hcue
  · intro hfires trigger harmed hcancelled hdue
    rw [hconcat]
    exact hfollows.mem_append_fired_of_due hfires harmed hcancelled hdue
  · exact hfollows.fired_order
  · rintro rfl trigger harmed
    by_cases hfired : trigger ∈ (start board).fired (past ++ [.finish])
    · exact .inl (List.count_eq_one_of_mem (hranks.of_map _) hfired)
    · refine .inr ⟨?_, hfired⟩
      by_contra hcancelled
      rw [hconcat] at hfired
      exact hfired (hfollows.mem_append_fired_finish harmed hcancelled)

end Captions.Session
