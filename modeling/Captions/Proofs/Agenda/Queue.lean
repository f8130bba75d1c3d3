import Captions.Agenda

/-! # The order of the queue

The queue of an agenda is sorted by time and, at the same time, by rank.
-/

namespace Captions

/-- The trigger stands before another one in a sorted queue. -/
def Trigger.Precedes (a b : Trigger) : Prop :=
  a.due < b.due ∨ a.due = b.due ∧ a.rank < b.rank

theorem Trigger.Precedes.trans {a b c : Trigger} (hab : a.Precedes b) (hbc : b.Precedes c) :
    a.Precedes c := by
  unfold Precedes at *
  omega

theorem Trigger.Precedes.asymm {a b : Trigger} (hab : a.Precedes b) : ¬ b.Precedes a := by
  unfold Precedes at *
  omega

theorem Trigger.comesFirst_iff {a b : Trigger} :
    a.comesFirst b ↔ a.Precedes b ∨ a.due = b.due ∧ a.rank = b.rank := by
  simp only [comesFirst, Precedes, Bool.or_eq_true, Bool.and_eq_true, decide_eq_true_eq,
    beq_iff_eq]
  omega

namespace Agenda

theorem pairwise_enqueue {trigger : Trigger} {queue : List Trigger}
    (hsorted : queue.Pairwise Trigger.Precedes)
    (hnew : ∀ other ∈ queue, trigger.rank ≠ other.rank) :
    (enqueue trigger queue).Pairwise Trigger.Precedes := by
  induction queue with
  | nil => exact List.pairwise_singleton _ _
  | cons head rest ih =>
      obtain ⟨hhead, hrest⟩ := List.pairwise_cons.mp hsorted
      obtain ⟨hne, hothers⟩ := List.forall_mem_cons.mp hnew
      rw [enqueue]
      split
      next hfirst =>
        have hprecedes : trigger.Precedes head := by
          refine (Trigger.comesFirst_iff.mp hfirst).resolve_right ?_
          rintro ⟨_, hrank⟩
          exact hne hrank
        refine List.pairwise_cons.mpr ⟨?_, hsorted⟩
        refine List.forall_mem_cons.mpr ⟨hprecedes, ?_⟩
        intro other hother
        exact hprecedes.trans (hhead other hother)
      next hlater =>
        refine List.pairwise_cons.mpr ⟨?_, ih hrest hothers⟩
        intro other hother
        rcases mem_enqueue.mp hother with rfl | hother
        -- The order is total, so the trigger stands behind what it does not precede.
        · rw [Trigger.comesFirst_iff] at hlater
          unfold Trigger.Precedes at hlater ⊢
          omega
        · exact hhead other hother

theorem mem_foldr_enqueue {trigger : Trigger} {triggers queue : List Trigger} :
    trigger ∈ triggers.foldr enqueue queue ↔ trigger ∈ triggers ∨ trigger ∈ queue := by
  induction triggers with
  | nil => simp
  | cons first rest ih => rw [List.foldr_cons, mem_enqueue, ih, List.mem_cons, or_assoc]

theorem pairwise_foldr_enqueue {triggers queue : List Trigger}
    (hsorted : queue.Pairwise Trigger.Precedes)
    (hranks : triggers.Pairwise fun a b => a.rank ≠ b.rank)
    (hnew : ∀ trigger ∈ triggers, ∀ other ∈ queue, trigger.rank ≠ other.rank) :
    (triggers.foldr enqueue queue).Pairwise Trigger.Precedes := by
  induction triggers with
  | nil => exact hsorted
  | cons first rest ih =>
      obtain ⟨hfirst, hrest⟩ := List.pairwise_cons.mp hranks
      obtain ⟨hfirstNew, hrestNew⟩ := List.forall_mem_cons.mp hnew
      refine pairwise_enqueue (ih hrest hrestNew) ?_
      intro other hother
      rcases mem_foldr_enqueue.mp hother with hmem | hmem
      · exact hfirst other hmem
      · exact hfirstNew other hmem

/-- The queue is sorted if the triggers that wait already are, and no rank occurs
twice. -/
theorem pairwise_queue {clock : Nat} {agenda : Agenda}
    (hsorted : agenda.waiting.Pairwise Trigger.Precedes)
    (hranks : agenda.fresh.Pairwise fun a b => a.rank < b.rank)
    (hnew : ∀ trigger ∈ agenda.fresh, ∀ other ∈ agenda.waiting, trigger.rank ≠ other.rank) :
    (agenda.queue clock).Pairwise Trigger.Precedes := by
  refine pairwise_foldr_enqueue hsorted ?_ ?_
  · exact (hranks.imp Nat.ne_of_lt).filter _
  · intro trigger htrigger
    exact hnew trigger (List.mem_filter.mp htrigger).1

theorem mem_late {clock : Nat} {agenda : Agenda} {trigger : Trigger} :
    trigger ∈ agenda.late clock ↔ trigger ∈ agenda.fresh ∧ trigger.due ≤ clock := by
  simp [late]

/-- Everything that is kept fires when it is due, and nothing else does. -/
theorem mem_fire {clock target : Nat} (htarget : clock ≤ target) {agenda : Agenda}
    {trigger : Trigger} :
    trigger ∈ (agenda.fire clock target).1 ↔
      (trigger ∈ agenda.fresh ∨ trigger ∈ agenda.waiting) ∧ trigger.due ≤ target := by
  rw [fire, List.mem_append, mem_late, List.mem_filter, mem_queue, decide_eq_true_eq]
  constructor
  · rintro (⟨hfresh, hdue⟩ | ⟨hwaiting | ⟨hfresh, _⟩, hdue⟩)
    · exact ⟨.inl hfresh, Nat.le_trans hdue htarget⟩
    · exact ⟨.inr hwaiting, hdue⟩
    · exact ⟨.inl hfresh, hdue⟩
  · rintro ⟨hfresh | hwaiting, hdue⟩
    · rcases Nat.lt_or_ge clock trigger.due with hlt | hle
      · exact .inr ⟨.inr ⟨hfresh, hlt⟩, hdue⟩
      · exact .inl ⟨hfresh, hle⟩
    · exact .inr ⟨.inl hwaiting, hdue⟩

theorem mem_waiting_fire {clock target : Nat} (htarget : clock ≤ target) {agenda : Agenda}
    {trigger : Trigger} :
    trigger ∈ (agenda.fire clock target).2.waiting ↔
      (trigger ∈ agenda.fresh ∨ trigger ∈ agenda.waiting) ∧ target < trigger.due := by
  rw [fire, List.mem_filter, mem_queue, decide_eq_true_eq]
  constructor
  · rintro ⟨hwaiting | ⟨hfresh, _⟩, hdue⟩
    · exact ⟨.inr hwaiting, hdue⟩
    · exact ⟨.inl hfresh, hdue⟩
  · rintro ⟨hfresh | hwaiting, hdue⟩
    · exact ⟨.inr ⟨hfresh, Nat.lt_of_le_of_lt htarget hdue⟩, hdue⟩
    · exact ⟨.inl hwaiting, hdue⟩

/-- No trigger is due after the time of the last one. -/
theorem due_le_latest {agenda : Agenda} {trigger : Trigger}
    (hmem : trigger ∈ agenda.fresh ++ agenda.waiting) : trigger.due ≤ agenda.latest := by
  unfold latest
  generalize agenda.fresh ++ agenda.waiting = pending at hmem
  induction pending with
  | nil => cases hmem
  | cons head rest ih =>
      rw [List.foldr_cons]
      rcases List.mem_cons.mp hmem with rfl | hrest
      · exact Nat.le_max_left _ _
      · exact Nat.le_trans (ih hrest) (Nat.le_max_right _ _)

theorem latest_le {agenda : Agenda} {time : Nat}
    (hdue : ∀ trigger ∈ agenda.fresh ++ agenda.waiting, trigger.due ≤ time) :
    agenda.latest ≤ time := by
  unfold latest
  generalize agenda.fresh ++ agenda.waiting = pending at hdue
  induction pending with
  | nil => exact Nat.zero_le _
  | cons head rest ih =>
      obtain ⟨hhead, hrest⟩ := List.forall_mem_cons.mp hdue
      rw [List.foldr_cons]
      exact Nat.max_le.mpr ⟨hhead, ih hrest⟩

theorem due_le_horizon {agenda : Agenda} {trigger : Trigger}
    (hmem : trigger ∈ agenda.fresh ++ agenda.waiting) : trigger.due ≤ agenda.horizon :=
  Nat.le_trans (due_le_latest hmem) (Nat.le_max_left _ _)

/-- A session whose triggers all have times that a line could give is played out up to the last
time code. -/
theorem horizon_eq {agenda : Agenda}
    (hdue : ∀ trigger ∈ agenda.fresh ++ agenda.waiting, trigger.due ≤ Timecode.last.offset) :
    agenda.horizon = Timecode.last.offset :=
  Nat.max_eq_right (latest_le hdue)

end Agenda

end Captions
