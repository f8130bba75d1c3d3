import Captions.Proofs.Agenda.Ledger
import Captions.Proofs.Race.Basic
import Captions.Proofs.Session.Deeds

/-! # Sessions as races

A session that plays against its own clock makes moves of a race: what fires is sent
in the order of firing and then carried out. So whatever holds of every race holds of
a session.
-/

namespace Captions.Race

/-- How far the task of a trigger has come. -/
def stateOf (fired : List Trigger) (cancelled : List Nat) (trigger : Trigger) : TaskState :=
  if trigger ∈ fired then .ran
  else if trigger.cue ∈ cancelled then .aborted
  else .armed

/-- The tasks of numbered cues. -/
def tasksOf (cues : List Cue) (fired : List Trigger) (cancelled : List Nat) : List CueTasks :=
  cues.mapIdx fun id cue =>
    ⟨cue, stateOf fired cancelled (cue.showTrigger id),
      stateOf fired cancelled (cue.hideTrigger id)⟩

variable {cues : List Cue} {fired : List Trigger} {cancelled : List Nat}

theorem stateOf_concat_self (trigger : Trigger) :
    stateOf (fired ++ [trigger]) cancelled trigger = .ran :=
  if_pos (List.mem_append_right _ (List.mem_singleton_self trigger))

theorem stateOf_concat_of_ne {trigger other : Trigger} (hne : other ≠ trigger) :
    stateOf (fired ++ [trigger]) cancelled other = stateOf fired cancelled other := by
  simp only [stateOf, List.mem_append, List.mem_singleton, hne, or_false]

theorem stateOf_cancel {agenda : Agenda} {id : Nat} (hid : id < agenda.size)
    {trigger : Trigger} (hcue : trigger.cue = id) :
    stateOf fired (agenda.cancel id).cancelled trigger =
      (stateOf fired agenda.cancelled trigger).abort := by
  have hmem : trigger.cue ∈ (agenda.cancel id).cancelled :=
    Agenda.mem_cancelled_cancel.mpr (.inr ⟨hcue, hid⟩)
  unfold stateOf
  split
  next => rfl
  next =>
    split
    next => rfl
    next => rfl

theorem stateOf_cancel_of_ne {agenda : Agenda} {id : Nat} {trigger : Trigger}
    (hcue : trigger.cue ≠ id) :
    stateOf fired (agenda.cancel id).cancelled trigger =
      stateOf fired agenda.cancelled trigger := by
  simp only [stateOf, Agenda.mem_cancelled_cancel, hcue, false_and, or_false]

theorem getElem?_tasksOf {id : Nat} {cue : Cue} (hcue : cues[id]? = some cue) :
    (tasksOf cues fired cancelled)[id]? =
      some ⟨cue, stateOf fired cancelled (cue.showTrigger id),
        stateOf fired cancelled (cue.hideTrigger id)⟩ := by
  rw [tasksOf, List.getElem?_mapIdx, hcue]
  rfl

/-- Only the tasks of one cue change. -/
theorem set_tasksOf {firedNext : List Trigger} {cancelledNext : List Nat} {id : Nat} {cue : Cue}
    (hcue : cues[id]? = some cue)
    (hothers : ∀ trigger : Trigger, trigger.cue ≠ id →
      stateOf firedNext cancelledNext trigger = stateOf fired cancelled trigger) :
    (tasksOf cues fired cancelled).set id
        ⟨cue, stateOf firedNext cancelledNext (cue.showTrigger id),
          stateOf firedNext cancelledNext (cue.hideTrigger id)⟩ =
      tasksOf cues firedNext cancelledNext := by
  apply List.ext_getElem?
  intro other
  by_cases hid : id = other
  · subst hid
    have hlength : id < (tasksOf cues fired cancelled).length := by
      rw [tasksOf, List.length_mapIdx]
      exact (List.getElem?_eq_some_iff.mp hcue).1
    rw [List.getElem?_set_self hlength, getElem?_tasksOf hcue]
  · rw [List.getElem?_set_ne hid, tasksOf, tasksOf, List.getElem?_mapIdx, List.getElem?_mapIdx]
    cases cues[other]? with
    | none => rfl
    | some own =>
        have hshow := hothers (own.showTrigger other) (Ne.symm hid)
        have hhide := hothers (own.hideTrigger other) (Ne.symm hid)
        simp only [Option.map_some, hshow, hhide]

variable {δ : Type} [Display δ] {queue : List Trigger} {session : Session δ}
  {events : List Event}

theorem tasksOf_concat {id : Nat} {cue : Cue} (hcue : cues[id]? = some cue) {trigger : Trigger}
    (hid : trigger.cue = id) :
    (tasksOf cues fired cancelled).set id
        ⟨cue, stateOf (fired ++ [trigger]) cancelled (cue.showTrigger id),
          stateOf (fired ++ [trigger]) cancelled (cue.hideTrigger id)⟩ =
      tasksOf cues (fired ++ [trigger]) cancelled := by
  apply set_tasksOf hcue
  intro other hother
  apply stateOf_concat_of_ne
  rintro rfl
  exact hother hid

theorem stateOf_pending {trigger : Trigger} (hfired : trigger ∉ fired)
    (hcancelled : trigger.cue ∉ cancelled) : stateOf fired cancelled trigger = .armed := by
  rw [stateOf, if_neg hfired, if_neg hcancelled]

theorem step_sendShow {id : Nat} {cue : Cue} (hcue : cues[id]? = some cue)
    (hfired : cue.showTrigger id ∉ fired) (hcancelled : id ∉ cancelled)
    (hdue : cue.showAt ≤ session.clock) :
    Step ⟨tasksOf cues fired cancelled, queue, session, events⟩ (.send (cue.showTrigger id))
      ⟨tasksOf cues (fired ++ [cue.showTrigger id]) cancelled, queue ++ [cue.showTrigger id],
        session, events⟩ := by
  have hne := (cue.showTrigger_ne_hideTrigger id).symm
  rw [← tasksOf_concat hcue rfl, stateOf_concat_self, stateOf_concat_of_ne hne]
  exact @Step.sendShow δ _ ⟨tasksOf cues fired cancelled, queue, session, events⟩ id _
    (getElem?_tasksOf hcue) (stateOf_pending hfired hcancelled) hdue

theorem step_sendHide {id : Nat} {cue : Cue} (hcue : cues[id]? = some cue)
    (hfired : cue.hideTrigger id ∉ fired) (hcancelled : id ∉ cancelled)
    (hdue : cue.hideAt ≤ session.clock) (hshown : cue.showTrigger id ∈ fired) :
    Step ⟨tasksOf cues fired cancelled, queue, session, events⟩ (.send (cue.hideTrigger id))
      ⟨tasksOf cues (fired ++ [cue.hideTrigger id]) cancelled, queue ++ [cue.hideTrigger id],
        session, events⟩ := by
  have hran : stateOf fired cancelled (cue.showTrigger id) ≠ .armed := by
    rw [stateOf, if_pos hshown]
    exact nofun
  have hne := cue.showTrigger_ne_hideTrigger id
  rw [← tasksOf_concat hcue rfl, stateOf_concat_self, stateOf_concat_of_ne hne]
  exact @Step.sendHide δ _ ⟨tasksOf cues fired cancelled, queue, session, events⟩ id _
    (getElem?_tasksOf hcue) (stateOf_pending hfired hcancelled) hdue hran

/-- Triggers that are pending and due can be sent one after the other if the hides come
after their shows. -/
theorem run_send {triggers : List Trigger} (hturn : Trigger.InTurn (fired ++ triggers))
    (harmed : ∀ trigger ∈ triggers, trigger ∈ Trigger.ofCues 0 cues ∧ trigger.cue ∉ cancelled ∧
      trigger.due ≤ session.clock)
    (hshown : ∀ (id : Nat) (cue : Cue), cues[id]? = some cue →
      cue.hideTrigger id ∈ triggers → cue.showTrigger id ∈ fired ++ triggers) :
    Run ⟨tasksOf cues fired cancelled, queue, session, events⟩ (triggers.map .send)
      ⟨tasksOf cues (fired ++ triggers) cancelled, queue ++ triggers, session, events⟩ := by
  induction triggers generalizing fired queue with
  | nil =>
      rw [List.append_nil, List.append_nil]
      exact .nil _
  | cons trigger rest ih =>
      obtain ⟨⟨howned, hcancelled, hdue⟩, hrest⟩ := List.forall_mem_cons.mp harmed
      -- What was fired before has a lower rank, so nothing is sent twice.
      have hfired : trigger ∉ fired := by
        intro hmem
        obtain ⟨_, _, hbefore⟩ := List.pairwise_append.mp hturn
        exact Nat.lt_irrefl _ (hbefore trigger hmem trigger List.mem_cons_self rfl)
      have hstep : Step ⟨tasksOf cues fired cancelled, queue, session, events⟩ (.send trigger)
          ⟨tasksOf cues (fired ++ [trigger]) cancelled, queue ++ [trigger], session, events⟩ := by
        obtain ⟨cue, hcue, hpair⟩ := Trigger.mem_ofCues_zero.mp howned
        generalize trigger.cue = id at hcancelled hcue hpair
        rcases Trigger.mem_pair.mp hpair with rfl | rfl
        · exact step_sendShow hcue hfired hcancelled hdue
        · refine step_sendHide hcue hfired hcancelled hdue ?_
          exact hturn.showTrigger_mem (hshown id cue hcue List.mem_cons_self)
      have hrun : Run ⟨tasksOf cues (fired ++ [trigger]) cancelled, queue ++ [trigger], session,
          events⟩ (rest.map .send) ⟨tasksOf cues (fired ++ [trigger] ++ rest) cancelled,
            queue ++ [trigger] ++ rest, session, events⟩ := by
        rw [List.append_cons] at hturn
        refine ih hturn hrest ?_
        intro id cue hcue hhide
        rw [← List.append_cons]
        exact hshown id cue hcue (List.mem_cons_of_mem _ hhide)
      rw [List.append_cons, List.append_cons queue]
      exact .cons hstep hrun

theorem run_apply {tasks : List CueTasks} {triggers : List Trigger}
    (halive : (session.actAll triggers).2.alive) :
    Run ⟨tasks, triggers, session, events⟩ (triggers.map .apply)
      ⟨tasks, [], (session.actAll triggers).2, events ++ (session.actAll triggers).1⟩ := by
  induction triggers generalizing session events with
  | nil =>
      rw [Session.actAll, List.append_nil]
      exact .nil _
  | cons trigger rest ih =>
      have hfirst := Session.alive_of_alive_actAll halive
      rw [Session.actAll, if_pos hfirst] at halive ⊢
      rw [← List.append_assoc]
      exact .cons (.apply rfl hfirst) (ih halive)

/-- A session as a race in which everything that was sent has been carried out. -/
def ofSession (cues : List Cue) (fired : List Trigger) (events : List Event)
    (session : Session δ) : Race δ where
  tasks := tasksOf cues fired session.agenda.cancelled
  session := { session with agenda := {} }
  events := events

/-- Moving the clock of a session forward is a run of the race. -/
theorem run_advance {settled recent : List Cue}
    (hledger : session.agenda.Ledger settled recent fired session.clock) {time : Nat}
    (halive : (session.advance time).session.alive) :
    Run (ofSession (settled ++ recent) fired events session)
      (.tick (max session.clock time) ::
        ((session.advance time).fired.map .send ++ (session.advance time).fired.map .apply))
      (ofSession (settled ++ recent) (fired ++ (session.advance time).fired)
        (events ++ (session.advance time).events) (session.advance time).session) := by
  have htarget : session.clock ≤ max session.clock time := Nat.le_max_left _ _
  have hshown : ∀ (id : Nat) (cue : Cue), (settled ++ recent)[id]? = some cue →
      cue.hideTrigger id ∈ (session.advance time).fired →
      cue.showTrigger id ∈ fired ++ (session.advance time).fired := by
    intro id cue hcue hhide
    exact hledger.showTrigger_mem_append htarget hcue hhide
  have harmed : ∀ trigger ∈ (session.advance time).fired,
      trigger ∈ Trigger.ofCues 0 (settled ++ recent) ∧ trigger.cue ∉ session.agenda.cancelled ∧
        trigger.due ≤ max session.clock time := by
    intro trigger htrigger
    obtain ⟨⟨howned, hcancelled, _⟩, hdue⟩ := (hledger.mem_fire htarget).mp htrigger
    exact ⟨howned, hcancelled, hdue⟩
  have hadvanced : ({ session with clock := max session.clock time, agenda := {} } :
      Session δ).actAll (session.advance time).fired =
        ((session.advance time).events,
          { (session.advance time).session with agenda := {} }) := by
    simp only [Session.advance, Session.actAll_with]
  have hcancelled : (session.advance time).session.agenda.cancelled =
      session.agenda.cancelled := by
    rw [(session.advance_session rfl).2.1]
    rfl
  have hsend : Run ⟨tasksOf (settled ++ recent) fired session.agenda.cancelled, [],
      { session with clock := max session.clock time, agenda := {} }, events⟩ _ _ :=
    run_send (hledger.inTurn_append htarget) harmed hshown
  have happly : Run ⟨tasksOf (settled ++ recent) (fired ++ (session.advance time).fired)
        session.agenda.cancelled, (session.advance time).fired,
      { session with clock := max session.clock time, agenda := {} }, events⟩ _ _ :=
    run_apply (by rw [hadvanced]; exact halive)
  rw [hadvanced] at happly
  refine .cons (.tick htarget) ?_
  rw [ofSession, ofSession, hcancelled]
  exact hsend.append happly

/-- A cue that is scheduled only now has both tasks ahead of it. -/
theorem tasksOf_schedule {settled recent : List Cue} {agenda : Agenda} {clock : Nat}
    (hledger : agenda.Ledger settled recent fired clock) (cue : Cue) :
    tasksOf (settled ++ recent ++ [cue]) fired agenda.cancelled =
      tasksOf (settled ++ recent) fired agenda.cancelled ++ [{ cue := cue }] := by
  have hcancelled : (settled ++ recent).length ∉ agenda.cancelled := by
    intro hmem
    have hlt := hledger.cancelled_lt _ hmem
    rw [hledger.size_eq, List.length_append] at hlt
    exact Nat.lt_irrefl _ hlt
  have hfired : ∀ trigger : Trigger, trigger.cue = (settled ++ recent).length →
      trigger ∉ fired := by
    intro trigger hcue hmem
    have hlt := (Trigger.cue_of_mem_ofCues (hledger.fired_mem trigger hmem)).2
    rw [hcue, List.length_append] at hlt
    omega
  have hshow : stateOf fired agenda.cancelled
      (cue.showTrigger (settled ++ recent).length) = .armed :=
    stateOf_pending (hfired _ rfl) hcancelled
  have hhide : stateOf fired agenda.cancelled
      (cue.hideTrigger (settled ++ recent).length) = .armed :=
    stateOf_pending (hfired _ rfl) hcancelled
  rw [tasksOf, List.mapIdx_append, List.mapIdx_cons, List.mapIdx_nil, Nat.zero_add, hshow, hhide]
  rfl

theorem step_schedule {settled recent : List Cue}
    (hledger : session.agenda.Ledger settled recent fired session.clock) (cue : Cue) :
    Step (ofSession (settled ++ recent) fired events session) (.schedule cue)
      (ofSession (settled ++ recent ++ [cue]) fired events (session.schedule cue).2.session) := by
  have hcancelled : (session.schedule cue).2.session.agenda.cancelled =
      session.agenda.cancelled := rfl
  rw [ofSession, ofSession, hcancelled, tasksOf_schedule hledger]
  exact .schedule cue

theorem step_cancel {settled recent : List Cue}
    (hledger : session.agenda.Ledger settled recent fired session.clock) {id : Nat}
    (hid : id < session.agenda.size) :
    Step (ofSession (settled ++ recent) fired events session) (.cancel id)
      (ofSession (settled ++ recent) fired events (session.cancel id).2) := by
  have hlength : id < (settled ++ recent).length := by
    rw [List.length_append, ← hledger.size_eq]
    exact hid
  have hcue := List.getElem?_eq_getElem hlength
  have hcancelled : (session.cancel id).2.agenda.cancelled =
      (session.agenda.cancel id).cancelled := rfl
  rw [ofSession, ofSession, hcancelled,
    ← set_tasksOf hcue fun trigger hne => stateOf_cancel_of_ne hne,
    stateOf_cancel hid rfl, stateOf_cancel hid rfl]
  exact @Step.cancel δ _ ⟨tasksOf (settled ++ recent) fired session.agenda.cancelled, [],
    { session with agenda := {} }, events⟩ id _ (getElem?_tasksOf hcue)

/-- A session that was played, with its cues, the triggers that have fired and what was
logged for them. -/
inductive Played (board : Board δ) :
    List Cue → List Trigger → List Event → Session δ → Prop
  | start : Played board [] [] [] (.start board)
  | schedule {cues : List Cue} {fired : List Trigger} {events : List Event} {session : Session δ}
      (hplayed : Played board cues fired events session) {cue : Cue}
      (hordered : cue.showAt ≤ cue.hideAt) :
      Played board (cues ++ [cue]) fired events (session.schedule cue).2.session
  | cancel {cues : List Cue} {fired : List Trigger} {events : List Event} {session : Session δ}
      (hplayed : Played board cues fired events session) (id : Nat) :
      Played board cues fired events (session.cancel id).2
  | advance {cues : List Cue} {fired : List Trigger} {events : List Event} {session : Session δ}
      (hplayed : Played board cues fired events session) (time : Nat) :
      Played board cues (fired ++ (session.advance time).fired)
        (events ++ (session.advance time).events) (session.advance time).session

theorem Played.exists_ledger {board : Board δ}
    (hplayed : Played board cues fired events session) :
    ∃ settled recent, cues = settled ++ recent ∧
      session.agenda.Ledger settled recent fired session.clock := by
  induction hplayed with
  | start => exact ⟨[], [], rfl, Agenda.ledger_empty 0⟩
  | schedule _ hordered ih =>
      obtain ⟨settled, recent, rfl, hledger⟩ := ih
      exact ⟨settled, recent ++ [_], List.append_assoc _ _ _, hledger.arm hordered⟩
  | cancel _ id ih =>
      obtain ⟨settled, recent, rfl, hledger⟩ := ih
      exact ⟨settled, recent, rfl, hledger.cancel id⟩
  | @advance cues fired events session _ time ih =>
      obtain ⟨settled, recent, rfl, hledger⟩ := ih
      refine ⟨settled ++ recent, [], (List.append_nil _).symm, ?_⟩
      obtain ⟨hfired, hagenda, hclock⟩ := session.advance_session (Eq.refl (max _ time))
      rw [hfired, hagenda, hclock]
      exact hledger.fire (Nat.le_max_left _ _)

theorem moves_send (triggers : List Trigger) :
    scheduled (triggers.map .send) = [] ∧ sent (triggers.map .send) = triggers ∧
      applied (triggers.map .send) = [] := by
  induction triggers with
  | nil => exact ⟨rfl, rfl, rfl⟩
  | cons trigger rest ih =>
      obtain ⟨hscheduled, hsent, happlied⟩ := ih
      exact ⟨hscheduled, congrArg (trigger :: ·) hsent, happlied⟩

theorem moves_apply (triggers : List Trigger) :
    scheduled (triggers.map .apply) = [] ∧ sent (triggers.map .apply) = [] ∧
      applied (triggers.map .apply) = triggers := by
  induction triggers with
  | nil => exact ⟨rfl, rfl, rfl⟩
  | cons trigger rest ih =>
      obtain ⟨hscheduled, hsent, happlied⟩ := ih
      exact ⟨hscheduled, hsent, congrArg (trigger :: ·) happlied⟩

theorem moves_advance (time : Nat) (triggers : List Trigger) :
    scheduled (.tick time :: (triggers.map .send ++ triggers.map .apply)) = [] ∧
      sent (.tick time :: (triggers.map .send ++ triggers.map .apply)) = triggers ∧
      applied (.tick time :: (triggers.map .send ++ triggers.map .apply)) = triggers := by
  obtain ⟨hscheduled, hsent, happlied⟩ := moves_send triggers
  obtain ⟨hscheduledLast, hsentLast, happliedLast⟩ := moves_apply triggers
  rw [← List.singleton_append, scheduled_append, scheduled_append, sent_append, sent_append,
    applied_append, applied_append, hscheduled, hsent, happlied, hscheduledLast, hsentLast,
    happliedLast]
  exact ⟨rfl, List.append_nil triggers, rfl⟩

/-- As long as its display works, a session that was played is a race in which the same
cues were scheduled and the same triggers were sent and carried out. -/
theorem Played.exists_run {board : Board δ}
    (hplayed : Played board cues fired events session) (halive : session.alive) :
    ∃ moves, Run (Race.start board) moves (ofSession cues fired events session) ∧
      scheduled moves = cues ∧ sent moves = fired ∧ applied moves = fired := by
  induction hplayed with
  | start => exact ⟨[], .nil _, rfl, rfl, rfl⟩
  | @schedule cues fired events session hplayed cue hordered ih =>
      obtain ⟨moves, hrun, hscheduled, hsent, happlied⟩ := ih halive
      obtain ⟨settled, recent, rfl, hledger⟩ := hplayed.exists_ledger
      refine ⟨moves ++ [.schedule cue],
        hrun.append (.cons (step_schedule hledger cue) (.nil _)), ?_, ?_, ?_⟩
      · rw [scheduled_append, hscheduled]
        rfl
      · rw [sent_append, hsent]
        exact List.append_nil _
      · rw [applied_append, happlied]
        exact List.append_nil _
  | @cancel cues fired events session hplayed id ih =>
      obtain ⟨moves, hrun, hscheduled, hsent, happlied⟩ := ih halive
      obtain ⟨settled, recent, rfl, hledger⟩ := hplayed.exists_ledger
      by_cases hid : id < session.agenda.size
      · refine ⟨moves ++ [.cancel id],
          hrun.append (.cons (step_cancel hledger hid) (.nil _)), ?_, ?_, ?_⟩
        · rw [scheduled_append, hscheduled]
          exact List.append_nil _
        · rw [sent_append, hsent]
          exact List.append_nil _
        · rw [applied_append, happlied]
          exact List.append_nil _
      · have hsame : session.agenda.cancel id = session.agenda := by
          simp [Agenda.cancel, Agenda.canCancel, hid]
        rw [Session.cancel, hsame]
        exact ⟨moves, hrun, hscheduled, hsent, happlied⟩
  | @advance cues fired events session hplayed time ih =>
      obtain ⟨moves, hrun, hscheduled, hsent, happlied⟩ :=
        ih (Session.alive_of_alive_advance halive)
      obtain ⟨settled, recent, rfl, hledger⟩ := hplayed.exists_ledger
      refine ⟨_, hrun.append (run_advance hledger halive), ?_, ?_, ?_⟩
      · rw [scheduled_append, hscheduled, (moves_advance _ _).1, List.append_nil]
      · rw [sent_append, hsent, (moves_advance _ _).2.1]
      · rw [applied_append, happlied, (moves_advance _ _).2.2]

end Captions.Race
