import Captions.Proofs.Agenda.Queue
import Captions.Proofs.Agenda.Triggers

/-! # The ledger of an agenda

The triggers that an agenda keeps are those of its cues that have neither fired nor
been cancelled. Arming, cancelling and firing keep the books in order: whatever
fires was pending, it is not fired before its time, and no hide before its own show.
-/

namespace Captions.Agenda

/-- Arms the triggers of cues one after the other. -/
def armAll (agenda : Agenda) : List Cue → Agenda
  | [] => agenda
  | cue :: rest => (agenda.arm cue).2.armAll rest

theorem cancelled_armAll (agenda : Agenda) (cues : List Cue) :
    (agenda.armAll cues).cancelled = agenda.cancelled := by
  induction cues generalizing agenda with
  | nil => rfl
  | cons cue rest ih => exact ih (agenda.arm cue).2

theorem size_armAll (agenda : Agenda) (cues : List Cue) :
    (agenda.armAll cues).size = agenda.size + cues.length := by
  induction cues generalizing agenda with
  | nil => rfl
  | cons cue rest ih =>
      simp only [armAll, ih, arm, List.length_cons]
      omega

theorem waiting_armAll (agenda : Agenda) (cues : List Cue) :
    (agenda.armAll cues).waiting = agenda.waiting := by
  induction cues generalizing agenda with
  | nil => rfl
  | cons cue rest ih => exact ih (agenda.arm cue).2

theorem armAll_append (agenda : Agenda) (first second : List Cue) :
    agenda.armAll (first ++ second) = (agenda.armAll first).armAll second := by
  induction first generalizing agenda with
  | nil => rfl
  | cons cue rest ih => exact ih (agenda.arm cue).2

@[simp] theorem size_cancel (id : Nat) (agenda : Agenda) :
    (agenda.cancel id).size = agenda.size := by
  unfold cancel
  split <;> rfl

theorem mem_cancelled_cancel {agenda : Agenda} {id other : Nat} :
    other ∈ (agenda.cancel id).cancelled ↔
      other ∈ agenda.cancelled ∨ other = id ∧ id < agenda.size := by
  unfold cancel
  split
  next hcan =>
    simp only [canCancel, Bool.and_eq_true, decide_eq_true_eq] at hcan
    rw [List.mem_cons, or_comm, and_iff_left hcan.1]
  next hcannot =>
    refine ⟨.inl, ?_⟩
    rintro (hmem | ⟨rfl, hlt⟩)
    · exact hmem
    · simpa [canCancel, hlt] using hcannot

/-- What an agenda owes to the cues that were there at the last firing, the cues
scheduled since then, the triggers that have fired, and the clock. -/
structure Ledger (settled recent : List Cue) (fired : List Trigger) (clock : Nat)
    (agenda : Agenda) : Prop where
  ordered : ∀ cue ∈ settled ++ recent, cue.showAt ≤ cue.hideAt
  size_eq : agenda.size = settled.length + recent.length
  cancelled_lt : ∀ id ∈ agenda.cancelled, id < agenda.size
  fresh_eq : agenda.fresh =
    (Trigger.ofCues settled.length recent).filter fun trigger => trigger.cue ∉ agenda.cancelled
  mem_waiting : ∀ trigger, trigger ∈ agenda.waiting ↔
    trigger ∈ Trigger.ofCues 0 settled ∧ trigger.cue ∉ agenda.cancelled ∧ trigger ∉ fired
  waiting_sorted : agenda.waiting.Pairwise Trigger.Precedes
  waiting_due : ∀ trigger ∈ agenda.waiting, clock < trigger.due
  fired_mem : ∀ trigger ∈ fired, trigger ∈ Trigger.ofCues 0 settled
  fired_inTurn : Trigger.InTurn fired
  show_fired : ∀ (id : Nat) (cue : Cue), settled[id]? = some cue →
    cue.hideTrigger id ∈ fired → cue.showTrigger id ∈ fired

theorem ledger_empty (clock : Nat) : Ledger [] [] [] clock {} where
  ordered := nofun
  size_eq := rfl
  cancelled_lt := nofun
  fresh_eq := rfl
  mem_waiting := by simp [Trigger.ofCues]
  waiting_sorted := .nil
  waiting_due := nofun
  fired_mem := nofun
  fired_inTurn := .nil
  show_fired := nofun

namespace Ledger

variable {settled recent : List Cue} {fired : List Trigger} {clock : Nat} {agenda : Agenda}

theorem arm (hledger : Ledger settled recent fired clock agenda) {cue : Cue}
    (hordered : cue.showAt ≤ cue.hideAt) :
    Ledger settled (recent ++ [cue]) fired clock (agenda.arm cue).2 := by
  have hnew : agenda.size ∉ agenda.cancelled := by
    intro hmem
    exact Nat.lt_irrefl _ (hledger.cancelled_lt _ hmem)
  refine { hledger with ordered := ?_, size_eq := ?_, cancelled_lt := ?_, fresh_eq := ?_ }
  · rw [← List.append_assoc]
    exact List.forall_mem_append.mpr ⟨hledger.ordered, by simpa using hordered⟩
  · rw [List.length_append, List.length_singleton, ← Nat.add_assoc, ← hledger.size_eq]
    rfl
  · intro id hid
    exact Nat.lt_succ_of_lt (hledger.cancelled_lt id hid)
  · have hpair : ((Trigger.ofCues agenda.size [cue]).filter fun trigger =>
        trigger.cue ∉ agenda.cancelled) = Trigger.pair agenda.size cue := by
      rw [Trigger.ofCues, Trigger.ofCues, List.append_nil, List.filter_eq_self]
      intro trigger htrigger
      rw [Trigger.cue_of_mem_pair htrigger]
      simpa using hnew
    have hall : agenda.fresh ++ Trigger.pair agenda.size cue =
        (Trigger.ofCues settled.length (recent ++ [cue])).filter fun trigger =>
          trigger.cue ∉ agenda.cancelled := by
      rw [Trigger.ofCues_append, List.filter_append, ← hledger.size_eq, hpair,
        ← hledger.fresh_eq]
    exact hall

theorem armAll (hledger : Ledger settled recent fired clock agenda) {cues : List Cue}
    (hordered : ∀ cue ∈ cues, cue.showAt ≤ cue.hideAt) :
    Ledger settled (recent ++ cues) fired clock (agenda.armAll cues) := by
  induction cues generalizing agenda recent with
  | nil =>
      rw [List.append_nil]
      exact hledger
  | cons cue rest ih =>
      obtain ⟨hcue, hrest⟩ := List.forall_mem_cons.mp hordered
      rw [List.append_cons]
      exact ih (hledger.arm hcue) hrest

theorem cancel (hledger : Ledger settled recent fired clock agenda) (id : Nat) :
    Ledger settled recent fired clock (agenda.cancel id) := by
  unfold Agenda.cancel
  split
  next hcan =>
    refine { hledger with
      cancelled_lt := ?_, fresh_eq := ?_, mem_waiting := ?_, waiting_sorted := ?_,
      waiting_due := ?_ }
    · refine List.forall_mem_cons.mpr ⟨?_, hledger.cancelled_lt⟩
      simp only [canCancel, Bool.and_eq_true, decide_eq_true_eq] at hcan
      exact hcan.1
    · simp only [hledger.fresh_eq, List.filter_filter, List.mem_cons, not_or,
        Bool.decide_and]
    · intro trigger
      simp only [List.mem_filter, hledger.mem_waiting, decide_eq_true_eq, List.mem_cons, not_or]
      constructor
      · rintro ⟨⟨harmed, hcancelled, hfired⟩, hne⟩
        exact ⟨harmed, ⟨hne, hcancelled⟩, hfired⟩
      · rintro ⟨harmed, ⟨hne, hcancelled⟩, hfired⟩
        exact ⟨⟨harmed, hcancelled, hfired⟩, hne⟩
    · exact hledger.waiting_sorted.filter _
    · intro trigger htrigger
      exact hledger.waiting_due trigger (List.mem_filter.mp htrigger).1
  next => exact hledger

theorem mem_fresh (hledger : Ledger settled recent fired clock agenda) {trigger : Trigger} :
    trigger ∈ agenda.fresh ↔
      trigger ∈ Trigger.ofCues settled.length recent ∧ trigger.cue ∉ agenda.cancelled := by
  rw [hledger.fresh_eq, List.mem_filter, decide_eq_true_eq]

theorem mem_armed {trigger : Trigger} :
    trigger ∈ Trigger.ofCues 0 (settled ++ recent) ↔
      trigger ∈ Trigger.ofCues 0 settled ∨ trigger ∈ Trigger.ofCues settled.length recent := by
  rw [Trigger.ofCues_append, List.mem_append, Nat.zero_add]

/-- The cues scheduled since the last firing have numbers of their own. -/
theorem settled_lt_recent {old new : Trigger} (hold : old ∈ Trigger.ofCues 0 settled)
    (hnew : new ∈ Trigger.ofCues settled.length recent) : old.cue < new.cue := by
  have hlt := (Trigger.cue_of_mem_ofCues hold).2
  have hle := (Trigger.cue_of_mem_ofCues hnew).1
  omega

/-- A trigger is kept as long as it has neither fired nor been cancelled. -/
theorem mem_pending (hledger : Ledger settled recent fired clock agenda) {trigger : Trigger} :
    trigger ∈ agenda.fresh ∨ trigger ∈ agenda.waiting ↔
      trigger ∈ Trigger.ofCues 0 (settled ++ recent) ∧ trigger.cue ∉ agenda.cancelled ∧
        trigger ∉ fired := by
  rw [hledger.mem_fresh, hledger.mem_waiting, mem_armed]
  constructor
  · rintro (⟨hrecent, hcancelled⟩ | ⟨hsettled, hrest⟩)
    · refine ⟨.inr hrecent, hcancelled, ?_⟩
      intro hfired
      exact Nat.lt_irrefl _ (settled_lt_recent (hledger.fired_mem trigger hfired) hrecent)
    · exact ⟨.inl hsettled, hrest⟩
  · rintro ⟨hsettled | hrecent, hcancelled, hfired⟩
    · exact .inr ⟨hsettled, hcancelled, hfired⟩
    · exact .inl ⟨hrecent, hcancelled⟩

theorem pairwise_fresh (hledger : Ledger settled recent fired clock agenda) :
    agenda.fresh.Pairwise fun a b => a.rank < b.rank := by
  rw [hledger.fresh_eq]
  exact (Trigger.pairwise_rank_ofCues _ _).filter _

theorem pairwise_late (hledger : Ledger settled recent fired clock agenda) :
    (agenda.late clock).Pairwise fun a b => a.rank < b.rank :=
  hledger.pairwise_fresh.filter _

theorem rank_ne (hledger : Ledger settled recent fired clock agenda) :
    ∀ new ∈ agenda.fresh, ∀ old ∈ agenda.waiting, new.rank ≠ old.rank := by
  intro new hnew old hold hrank
  have hlt := settled_lt_recent ((hledger.mem_waiting old).mp hold).1 (hledger.mem_fresh.mp hnew).1
  exact Nat.ne_of_gt hlt (Trigger.cue_eq_of_rank_eq hrank)

theorem pairwise_queue (hledger : Ledger settled recent fired clock agenda) :
    (agenda.queue clock).Pairwise Trigger.Precedes :=
  Agenda.pairwise_queue hledger.waiting_sorted hledger.pairwise_fresh hledger.rank_ne

theorem lt_due_of_mem_queue (hledger : Ledger settled recent fired clock agenda)
    {trigger : Trigger} (hmem : trigger ∈ agenda.queue clock) : clock < trigger.due := by
  rcases mem_queue.mp hmem with hwaiting | ⟨_, hdue⟩
  · exact hledger.waiting_due trigger hwaiting
  · exact hdue

/-- What fires was pending and is due, and nothing else fires. -/
theorem mem_fire (hledger : Ledger settled recent fired clock agenda) {target : Nat}
    (htarget : clock ≤ target) {trigger : Trigger} :
    trigger ∈ (agenda.fire clock target).1 ↔
      (trigger ∈ Trigger.ofCues 0 (settled ++ recent) ∧ trigger.cue ∉ agenda.cancelled ∧
        trigger ∉ fired) ∧ trigger.due ≤ target := by
  rw [Agenda.mem_fire htarget, hledger.mem_pending]

theorem inTurn_fire (hledger : Ledger settled recent fired clock agenda) {target : Nat}
    (htarget : clock ≤ target) : Trigger.InTurn (agenda.fire clock target).1 := by
  have harmed : ∀ trigger ∈ (agenda.fire clock target).1,
      trigger ∈ Trigger.ofCues 0 (settled ++ recent) := by
    intro trigger htrigger
    exact ((hledger.mem_fire htarget).mp htrigger).1.1
  have hordered : ∀ (id : Nat) (cue : Cue), (settled ++ recent)[id]? = some cue →
      cue.showAt ≤ cue.hideAt := by
    intro id cue hcue
    exact hledger.ordered cue (List.mem_of_getElem? hcue)
  refine List.pairwise_append.mpr ⟨?_, ?_, ?_⟩
  · refine hledger.pairwise_late.imp ?_
    intro a b hlt _
    exact hlt
  · refine (hledger.pairwise_queue.filter _).imp_of_mem ?_
    intro a b ha hb hprecedes hsame
    refine Trigger.rank_lt_of_mem_ofCues (harmed a (List.mem_append_right _ ha))
      (harmed b (List.mem_append_right _ hb)) hsame ?_ ?_
    · rintro rfl
      unfold Trigger.Precedes at hprecedes
      omega
    · rintro id cue hcue rfl rfl
      have hle : cue.showAt ≤ cue.hideAt := hordered id cue hcue
      have hlt : cue.hideAt < cue.showAt ∨ cue.hideAt = cue.showAt ∧ 2 * id + 1 < 2 * id :=
        hprecedes
      omega
  -- A cue may be split: what is late goes first, so its hide must not be late alone.
  · intro a ha b hb hsame
    have hdue : a.due ≤ clock := (mem_late.mp ha).2
    have hqueued : clock < b.due := hledger.lt_due_of_mem_queue (List.mem_filter.mp hb).1
    refine Trigger.rank_lt_of_mem_ofCues (harmed a (List.mem_append_left _ ha))
      (harmed b (List.mem_append_right _ hb)) hsame ?_ ?_
    · rintro rfl
      omega
    · rintro id cue hcue rfl rfl
      have hle : cue.showAt ≤ cue.hideAt := hordered id cue hcue
      have hhide : cue.hideAt ≤ clock := hdue
      have hshow : clock < cue.showAt := hqueued
      omega

/-- At time zero what is late is due just then, so all that fires is sorted. -/
theorem pairwise_fire_zero (hledger : Ledger settled recent fired 0 agenda) (target : Nat) :
    (agenda.fire 0 target).1.Pairwise Trigger.Precedes := by
  have hlate : ∀ trigger ∈ agenda.late 0, trigger.due = 0 := by
    intro trigger htrigger
    exact Nat.le_zero.mp (mem_late.mp htrigger).2
  refine List.pairwise_append.mpr ⟨?_, hledger.pairwise_queue.filter _, ?_⟩
  · refine hledger.pairwise_late.imp_of_mem ?_
    intro a b ha hb hrank
    exact .inr ⟨(hlate a ha).trans (hlate b hb).symm, hrank⟩
  · intro a ha b hb
    rw [Trigger.Precedes, hlate a ha]
    exact .inl (hledger.lt_due_of_mem_queue (List.mem_filter.mp hb).1)

theorem showTrigger_mem_fired (hledger : Ledger settled recent fired clock agenda) {id : Nat}
    {cue : Cue} (hcue : (settled ++ recent)[id]? = some cue)
    (hhide : cue.hideTrigger id ∈ fired) : cue.showTrigger id ∈ fired := by
  have hlt : id < 0 + settled.length := (Trigger.cue_of_mem_ofCues (hledger.fired_mem _ hhide)).2
  rw [Nat.zero_add] at hlt
  rw [List.getElem?_append_left hlt] at hcue
  exact hledger.show_fired id cue hcue hhide

/-- A hide fires only together with its show or after it. -/
theorem showTrigger_mem_append (hledger : Ledger settled recent fired clock agenda)
    {target : Nat} (htarget : clock ≤ target) {id : Nat} {cue : Cue}
    (hcue : (settled ++ recent)[id]? = some cue)
    (hhide : cue.hideTrigger id ∈ (agenda.fire clock target).1) :
    cue.showTrigger id ∈ fired ++ (agenda.fire clock target).1 := by
  obtain ⟨⟨_, hcancelled, _⟩, hdue⟩ := (hledger.mem_fire htarget).mp hhide
  by_cases hfired : cue.showTrigger id ∈ fired
  · exact List.mem_append_left _ hfired
  · refine List.mem_append_right _ ((hledger.mem_fire htarget).mpr ⟨⟨?_, hcancelled, hfired⟩, ?_⟩)
    · exact Trigger.showTrigger_mem_ofCues hcue
    · exact Nat.le_trans (hledger.ordered cue (List.mem_of_getElem? hcue)) hdue

theorem inTurn_append (hledger : Ledger settled recent fired clock agenda) {target : Nat}
    (htarget : clock ≤ target) : Trigger.InTurn (fired ++ (agenda.fire clock target).1) := by
  refine List.pairwise_append.mpr
    ⟨hledger.fired_inTurn, hledger.inTurn_fire htarget, ?_⟩
  intro a ha b hb hsame
  obtain ⟨⟨harmed, _, hfired⟩, _⟩ := (hledger.mem_fire htarget).mp hb
  refine Trigger.rank_lt_of_mem_ofCues (mem_armed.mpr (.inl (hledger.fired_mem a ha))) harmed
    hsame ?_ ?_
  · rintro rfl
    exact hfired ha
  -- A hide that has fired was not alone, so the show cannot fire now.
  · rintro id cue hcue rfl rfl
    exact hfired (hledger.showTrigger_mem_fired hcue ha)

/-- After a firing all cues are settled, and the books are in order again. -/
theorem fire (hledger : Ledger settled recent fired clock agenda) {target : Nat}
    (htarget : clock ≤ target) :
    Ledger (settled ++ recent) [] (fired ++ (agenda.fire clock target).1) target
      (agenda.fire clock target).2 where
  ordered := by
    rw [List.append_nil]
    exact hledger.ordered
  size_eq := by
    rw [List.length_append]
    exact hledger.size_eq
  cancelled_lt := hledger.cancelled_lt
  fresh_eq := rfl
  mem_waiting := by
    intro trigger
    rw [mem_waiting_fire htarget, hledger.mem_pending, List.mem_append, hledger.mem_fire htarget,
      not_or, not_and, Nat.not_le]
    constructor
    · rintro ⟨hpending, hdue⟩
      refine ⟨hpending.1, hpending.2.1, hpending.2.2, ?_⟩
      intro _
      exact hdue
    · rintro ⟨harmed, hcancelled, hfired, hdue⟩
      exact ⟨⟨harmed, hcancelled, hfired⟩, hdue ⟨harmed, hcancelled, hfired⟩⟩
  waiting_sorted := hledger.pairwise_queue.filter _
  waiting_due := by
    intro trigger htrigger
    exact of_decide_eq_true (List.mem_filter.mp htrigger).2
  fired_mem := by
    intro trigger htrigger
    rcases List.mem_append.mp htrigger with hold | hnew
    · exact mem_armed.mpr (.inl (hledger.fired_mem trigger hold))
    · exact ((hledger.mem_fire htarget).mp hnew).1.1
  fired_inTurn := hledger.inTurn_append htarget
  show_fired := by
    intro id cue hcue hhide
    rcases List.mem_append.mp hhide with hold | hnew
    · exact List.mem_append_left _ (hledger.showTrigger_mem_fired hcue hold)
    · exact hledger.showTrigger_mem_append htarget hcue hnew

end Ledger

end Captions.Agenda
