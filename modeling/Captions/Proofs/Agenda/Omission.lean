import Captions.Proofs.Agenda.Ledger

/-! # Leaving out a cue

If a cue is never scheduled, its triggers are not there, and the numbers of the cues after it
are lower by one. All that an agenda does with the other cues stays the same: their triggers
fire at the same times and in the same order.
-/

namespace Captions

/-- The number of a cue if the cue numbered `id` is not scheduled. -/
def Agenda.renumber (id number : Nat) : Nat :=
  if id < number then number - 1 else number

theorem Agenda.renumber_le_renumber {id a b : Nat} (hb : b ≠ id) :
    renumber id a ≤ renumber id b ↔ a ≤ b := by
  unfold renumber
  split <;> split <;> omega

theorem Agenda.renumber_inj {id a b : Nat} (ha : a ≠ id) (hb : b ≠ id) :
    renumber id a = renumber id b ↔ a = b := by
  rw [Nat.le_antisymm_iff, renumber_le_renumber hb, renumber_le_renumber ha,
    ← Nat.le_antisymm_iff]

theorem Agenda.renumber_succ {id number : Nat} (hnumber : number ≠ id) :
    renumber id (number + 1) = renumber id number + 1 := by
  unfold renumber
  split <;> split <;> omega

theorem Agenda.renumber_succ_self (id : Nat) : renumber id (id + 1) = renumber id id := by
  unfold renumber
  split <;> split <;> omega

/-- The number of a cue with the cue numbered `id`, from its number without it. -/
def Agenda.restore (id number : Nat) : Nat :=
  if id ≤ number then number + 1 else number

theorem Agenda.restore_renumber {id number : Nat} (hnumber : number ≠ id) :
    restore id (renumber id number) = number := by
  unfold restore renumber
  split <;> split <;> omega

namespace Trigger

/-- The trigger under the number that its cue has if the cue numbered `id` is not scheduled. -/
def renumber (id : Nat) (trigger : Trigger) : Trigger :=
  { trigger with cue := Agenda.renumber id trigger.cue }

/-- The trigger under the number that its cue has if the cue numbered `id` is scheduled. -/
def restore (id : Nat) (trigger : Trigger) : Trigger :=
  { trigger with cue := Agenda.restore id trigger.cue }

/-- The triggers of all cues but one. -/
def without (id : Nat) (triggers : List Trigger) : List Trigger :=
  (triggers.filter (·.cue ≠ id)).map (renumber id)

theorem without_cons_of_eq {id : Nat} {trigger : Trigger} (hcue : trigger.cue = id)
    (rest : List Trigger) : without id (trigger :: rest) = without id rest := by
  rw [without, List.filter_cons_of_neg (by simpa using hcue), without]

theorem without_cons_of_ne {id : Nat} {trigger : Trigger} (hcue : trigger.cue ≠ id)
    (rest : List Trigger) :
    without id (trigger :: rest) = trigger.renumber id :: without id rest := by
  rw [without, List.filter_cons_of_pos (by simpa using hcue), List.map_cons, without]

theorem without_append (id : Nat) (triggers others : List Trigger) :
    without id (triggers ++ others) = without id triggers ++ without id others := by
  rw [without, List.filter_append, List.map_append, without, without]

theorem mem_without {id : Nat} {triggers : List Trigger} {trigger : Trigger} :
    trigger ∈ without id triggers ↔
      ∃ old ∈ triggers, old.cue ≠ id ∧ old.renumber id = trigger := by
  simp only [without, List.mem_map, List.mem_filter, decide_eq_true_eq, and_assoc]

/-- What is said of times holds of the same triggers after a cue was left out. -/
theorem without_filter_due (id : Nat) (p : Nat → Bool) (triggers : List Trigger) :
    without id (triggers.filter fun trigger => p trigger.due) =
      (without id triggers).filter fun trigger => p trigger.due := by
  rw [without, without, List.filter_map, List.filter_filter, List.filter_filter]
  refine congrArg _ (List.filter_congr ?_)
  intro trigger _
  exact Bool.and_comm _ _

theorem rank_renumber (id : Nat) (trigger : Trigger) :
    (trigger.renumber id).rank + 2 * trigger.cue =
      trigger.rank + 2 * Agenda.renumber id trigger.cue := by
  obtain ⟨number, due, action⟩ := trigger
  cases action with
  | showCue cue => exact Nat.add_comm _ _
  | hideText text =>
      simp only [rank, renumber]
      omega

theorem comesFirst_renumber {id : Nat} {a b : Trigger} (ha : a.cue ≠ id) (hb : b.cue ≠ id) :
    (a.renumber id).comesFirst (b.renumber id) = a.comesFirst b := by
  have hcues := Agenda.renumber_le_renumber (a := a.cue) hb
  have hback := Agenda.renumber_le_renumber (a := b.cue) ha
  have hranks : (a.renumber id).rank ≤ (b.renumber id).rank ↔ a.rank ≤ b.rank := by
    have hranka := rank_renumber id a
    have hrankb := rank_renumber id b
    have hslota := rank_eq a
    have hslotb := rank_eq b
    omega
  unfold comesFirst
  rw [decide_eq_decide.mpr hranks]
  rfl

theorem without_pair (id : Nat) {number : Nat} (hnumber : number ≠ id) (cue : Cue) :
    without id (pair number cue) = pair (Agenda.renumber id number) cue := by
  rw [pair, without_cons_of_ne hnumber, without_cons_of_ne hnumber]
  rfl

theorem without_pair_self (id : Nat) (cue : Cue) : without id (pair id cue) = [] := by
  simp [without, pair]

/-- Nothing is lost of the triggers of the other cues. -/
theorem map_restore_without (id : Nat) (triggers : List Trigger) :
    (without id triggers).map (restore id) = triggers.filter (·.cue ≠ id) := by
  rw [without, List.map_map]
  refine (List.map_congr_left ?_).trans (List.map_id _)
  intro trigger htrigger
  have hcue : trigger.cue ≠ id := of_decide_eq_true (List.mem_filter.mp htrigger).2
  simp [restore, renumber, Agenda.restore_renumber hcue]

theorem filter_eq_of_without_eq {id : Nat} {triggers others : List Trigger}
    (hwithout : without id triggers = without id others) :
    triggers.filter (·.cue ≠ id) = others.filter (·.cue ≠ id) := by
  rw [← map_restore_without, hwithout, map_restore_without]

end Trigger

namespace Agenda

theorem enqueue_of_comesFirst {trigger : Trigger} {queue : List Trigger}
    (hfirst : ∀ other ∈ queue, trigger.comesFirst other) :
    enqueue trigger queue = trigger :: queue := by
  cases queue with
  | nil => rfl
  | cons head rest => rw [enqueue, if_pos (hfirst head List.mem_cons_self)]

theorem comesFirst_of_pairwise {trigger head : Trigger} {rest : List Trigger}
    (hsorted : (head :: rest).Pairwise Trigger.Precedes) (hfirst : trigger.comesFirst head) :
    ∀ other ∈ head :: rest, trigger.comesFirst other := by
  refine List.forall_mem_cons.mpr ⟨hfirst, ?_⟩
  intro other hother
  have hprecedes := List.rel_of_pairwise_cons hsorted hother
  rw [Trigger.comesFirst_iff] at hfirst ⊢
  unfold Trigger.Precedes at hfirst hprecedes ⊢
  omega

theorem without_enqueue_of_eq {id : Nat} {trigger : Trigger} (hcue : trigger.cue = id)
    (queue : List Trigger) :
    Trigger.without id (enqueue trigger queue) = Trigger.without id queue := by
  induction queue with
  | nil => exact Trigger.without_cons_of_eq hcue []
  | cons head rest ih =>
      rw [enqueue]
      split
      next => exact Trigger.without_cons_of_eq hcue (head :: rest)
      next =>
        by_cases hhead : head.cue = id
        · rw [Trigger.without_cons_of_eq hhead, Trigger.without_cons_of_eq hhead, ih]
        · rw [Trigger.without_cons_of_ne hhead, Trigger.without_cons_of_ne hhead, ih]

/-- A trigger finds its place in a sorted queue whether or not the triggers of another cue
are there. -/
theorem without_enqueue_of_ne {id : Nat} {trigger : Trigger} (hcue : trigger.cue ≠ id)
    {queue : List Trigger} (hsorted : queue.Pairwise Trigger.Precedes) :
    Trigger.without id (enqueue trigger queue) =
      enqueue (trigger.renumber id) (Trigger.without id queue) := by
  induction queue with
  | nil => exact Trigger.without_cons_of_ne hcue []
  | cons head rest ih =>
      have hrest := ih (List.pairwise_cons.mp hsorted).2
      by_cases hfirst : trigger.comesFirst head
      · rw [enqueue, if_pos hfirst, Trigger.without_cons_of_ne hcue, enqueue_of_comesFirst]
        intro other hother
        obtain ⟨old, hold, hne, rfl⟩ := Trigger.mem_without.mp hother
        rw [Trigger.comesFirst_renumber hcue hne]
        exact comesFirst_of_pairwise hsorted hfirst old hold
      · rw [enqueue, if_neg hfirst]
        by_cases hhead : head.cue = id
        · rw [Trigger.without_cons_of_eq hhead, Trigger.without_cons_of_eq hhead, hrest]
        · rw [Trigger.without_cons_of_ne hhead, Trigger.without_cons_of_ne hhead, enqueue, if_neg,
            hrest]
          rw [Trigger.comesFirst_renumber hcue hhead]
          exact hfirst

theorem without_foldr_enqueue (id : Nat) {triggers queue : List Trigger}
    (hsorted : queue.Pairwise Trigger.Precedes)
    (hranks : triggers.Pairwise fun a b => a.rank ≠ b.rank)
    (hnew : ∀ trigger ∈ triggers, ∀ other ∈ queue, trigger.rank ≠ other.rank) :
    Trigger.without id (triggers.foldr enqueue queue) =
      (Trigger.without id triggers).foldr enqueue (Trigger.without id queue) := by
  induction triggers with
  | nil => rfl
  | cons first rest ih =>
      obtain ⟨_, hrest⟩ := List.pairwise_cons.mp hranks
      obtain ⟨_, hrestNew⟩ := List.forall_mem_cons.mp hnew
      have hothers := ih hrest hrestNew
      rw [List.foldr_cons]
      by_cases hcue : first.cue = id
      · rw [without_enqueue_of_eq hcue, Trigger.without_cons_of_eq hcue, hothers]
      · rw [without_enqueue_of_ne hcue (pairwise_foldr_enqueue hsorted hrest hrestNew),
          Trigger.without_cons_of_ne hcue, List.foldr_cons, hothers]

/-- The agenda if the cue numbered `id` is not scheduled. -/
def without (id : Nat) (agenda : Agenda) : Agenda where
  size := renumber id agenda.size
  cancelled := (agenda.cancelled.filter (· ≠ id)).map (renumber id)
  fresh := Trigger.without id agenda.fresh
  waiting := Trigger.without id agenda.waiting

/-- The cue that is left out leaves no trace. -/
theorem without_arm_self {id : Nat} {agenda : Agenda} (hsize : agenda.size = id) (cue : Cue) :
    (agenda.arm cue).2.without id = agenda.without id := by
  have hnumber : renumber id (agenda.size + 1) = renumber id agenda.size := by
    rw [hsize, renumber_succ_self]
  have hfresh : Trigger.without id (agenda.fresh ++ Trigger.pair agenda.size cue) =
      Trigger.without id agenda.fresh := by
    rw [Trigger.without_append, hsize, Trigger.without_pair_self, List.append_nil]
  simp only [without, arm, hnumber, hfresh]

/-- All other cues are armed as if it had been there. -/
theorem without_arm {id : Nat} {agenda : Agenda} (hsize : agenda.size ≠ id) (cue : Cue) :
    (agenda.arm cue).2.without id = ((agenda.without id).arm cue).2 := by
  have hnumber := renumber_succ hsize
  have hfresh : Trigger.without id (agenda.fresh ++ Trigger.pair agenda.size cue) =
      Trigger.without id agenda.fresh ++ Trigger.pair (renumber id agenda.size) cue := by
    rw [Trigger.without_append, Trigger.without_pair id hsize]
  simp only [without, arm, hnumber, hfresh]

/-- Without one of the cues that are armed in a row, the others are armed. -/
theorem without_armAll (id : Nat) (agenda : Agenda) (cues : List Cue) :
    (agenda.armAll cues).without id = (agenda.without id).armAll
      (if agenda.size ≤ id then cues.eraseIdx (id - agenda.size) else cues) := by
  induction cues generalizing agenda with
  | nil => simp [armAll]
  | cons cue rest ih =>
      have hsize : (agenda.arm cue).2.size = agenda.size + 1 := rfl
      rw [armAll, ih, hsize]
      by_cases hid : agenda.size = id
      · rw [without_arm_self hid, if_neg (by omega), if_pos (by omega), hid, Nat.sub_self,
          List.eraseIdx_cons_zero]
      · rw [without_arm hid]
        by_cases hlt : agenda.size < id
        · rw [if_pos (by omega), if_pos (by omega),
            show id - agenda.size = id - (agenda.size + 1) + 1 by omega, List.eraseIdx_cons_succ,
            armAll]
        · rw [if_neg (by omega), if_neg (by omega), armAll]

theorem canCancel_without {id other : Nat} (hother : other ≠ id) (agenda : Agenda) :
    (agenda.without id).canCancel (renumber id other) = agenda.canCancel other := by
  have hcancelled : renumber id other ∈ (agenda.cancelled.filter (· ≠ id)).map (renumber id) ↔
      other ∈ agenda.cancelled := by
    rw [List.mem_map]
    constructor
    · rintro ⟨number, hnumber, heq⟩
      obtain ⟨hmem, hne⟩ := List.mem_filter.mp hnumber
      rw [renumber_inj (of_decide_eq_true hne) hother] at heq
      exact heq ▸ hmem
    · intro hmem
      exact ⟨other, List.mem_filter.mpr ⟨hmem, decide_eq_true hother⟩, rfl⟩
  have hsize : renumber id other < renumber id agenda.size ↔ other < agenda.size := by
    unfold renumber
    split <;> split <;> omega
  simp only [canCancel, without, hsize, List.contains_eq_mem, hcancelled]

theorem without_filter_cue {id other : Nat} (hother : other ≠ id) (triggers : List Trigger) :
    Trigger.without id (triggers.filter (·.cue ≠ other)) =
      (Trigger.without id triggers).filter (·.cue ≠ renumber id other) := by
  rw [Trigger.without, Trigger.without, List.filter_map, List.filter_filter, List.filter_filter]
  refine congrArg _ (List.filter_congr ?_)
  intro trigger _
  by_cases hcue : trigger.cue = id
  · simp [hcue]
  · simp [hcue, Trigger.renumber, renumber_inj hcue hother]

theorem without_cancel {id other : Nat} (hother : other ≠ id) (agenda : Agenda) :
    (agenda.cancel other).without id = (agenda.without id).cancel (renumber id other) := by
  unfold cancel
  rw [canCancel_without hother]
  split
  next =>
    have hcancelled : (other :: agenda.cancelled).filter (· ≠ id) =
        other :: agenda.cancelled.filter (· ≠ id) :=
      List.filter_cons_of_pos (decide_eq_true hother)
    simp only [without, without_filter_cue hother, hcancelled, List.map_cons]
  next => rfl

theorem without_cancel_self (id : Nat) (agenda : Agenda) :
    (agenda.cancel id).without id = agenda.without id := by
  have hsame : ∀ triggers : List Trigger,
      Trigger.without id (triggers.filter (·.cue ≠ id)) = Trigger.without id triggers := by
    intro triggers
    rw [Trigger.without, List.filter_filter, Trigger.without]
    simp only [Bool.and_self]
  have hcancelled : (id :: agenda.cancelled).filter (· ≠ id) = agenda.cancelled.filter (· ≠ id) :=
    List.filter_cons_of_neg (by simp)
  unfold cancel
  split
  next => simp only [without, hsame, hcancelled]
  next => rfl

variable {settled recent : List Cue} {fired : List Trigger} {clock : Nat} {agenda : Agenda}

theorem without_late (id clock : Nat) (agenda : Agenda) :
    Trigger.without id (agenda.late clock) = (agenda.without id).late clock :=
  Trigger.without_filter_due id (fun due => due ≤ clock) agenda.fresh

/-- Without a cue the other triggers of the queue keep their order. -/
theorem Ledger.without_queue (hledger : Ledger settled recent fired clock agenda) (id : Nat) :
    Trigger.without id (agenda.queue clock) = (agenda.without id).queue clock := by
  rw [queue, without_foldr_enqueue id hledger.waiting_sorted
    ((hledger.pairwise_fresh.imp Nat.ne_of_lt).filter _)
    (fun trigger htrigger => hledger.rank_ne trigger (List.mem_filter.mp htrigger).1),
    Trigger.without_filter_due id (fun due => clock < due)]
  rfl

/-- Without a cue the other triggers fire in the same order, and the same are left. -/
theorem Ledger.without_fire (hledger : Ledger settled recent fired clock agenda)
    (id target : Nat) :
    ((agenda.without id).fire clock target).1 = Trigger.without id (agenda.fire clock target).1 ∧
      ((agenda.without id).fire clock target).2 = (agenda.fire clock target).2.without id := by
  have hdue := Trigger.without_filter_due id (fun due => due ≤ target) (agenda.queue clock)
  have hlater := Trigger.without_filter_due id (fun due => target < due) (agenda.queue clock)
  rw [hledger.without_queue] at hdue hlater
  refine ⟨?_, ?_⟩
  · rw [Agenda.fire, Agenda.fire, Trigger.without_append, without_late, hdue]
  · simp only [Agenda.fire, ← hlater]
    rfl

/-- A session is played out as far without the cue as with it. -/
theorem horizon_without (id : Nat) {agenda : Agenda}
    (hdue : ∀ trigger ∈ agenda.fresh ++ agenda.waiting, trigger.due ≤ Timecode.last.offset) :
    (agenda.without id).horizon = agenda.horizon := by
  rw [horizon_eq hdue]
  refine horizon_eq ?_
  intro trigger htrigger
  rw [without, ← Trigger.without_append] at htrigger
  obtain ⟨old, hold, _, rfl⟩ := Trigger.mem_without.mp htrigger
  exact hdue old hold

end Agenda

end Captions
