import Captions.Proofs.Agenda.Ledger

/-! # Firing in stages

The queue of an agenda is sorted by time, so the same triggers fire in the same order whether the
clock goes to a time at once or stops on the way. What is late goes first in either case: a stop
leaves nothing that was armed since the last firing.
-/

namespace Captions.Agenda

/-- In a sorted queue, what is due up to a time stands before what is due later. -/
theorem filter_due_append {queue : List Trigger} (hsorted : queue.Pairwise Trigger.Precedes)
    {middle target : Nat} (hle : middle ≤ target) :
    queue.filter (·.due ≤ middle) ++ (queue.filter (middle < ·.due)).filter (·.due ≤ target) =
      queue.filter (·.due ≤ target) := by
  induction queue with
  | nil => rfl
  | cons head rest ih =>
      obtain ⟨hhead, hrest⟩ := List.pairwise_cons.mp hsorted
      by_cases hdue : head.due ≤ middle
      · have hlate : head.due ≤ target := Nat.le_trans hdue hle
        have hnot : ¬ middle < head.due := Nat.not_lt.mpr hdue
        rw [List.filter_cons_of_pos (by simpa using hdue),
          List.filter_cons_of_neg (by simpa using hnot),
          List.filter_cons_of_pos (by simpa using hlate), List.cons_append, ih hrest]
      -- The head is due later, and so is everything behind it.
      · have hlater : ∀ trigger ∈ head :: rest, middle < trigger.due := by
          refine List.forall_mem_cons.mpr ⟨Nat.not_le.mp hdue, ?_⟩
          intro trigger htrigger
          have hprecedes := hhead trigger htrigger
          unfold Trigger.Precedes at hprecedes
          omega
        have hnone : (head :: rest).filter (·.due ≤ middle) = [] := by
          simpa [List.filter_eq_nil_iff] using hlater
        have hall : (head :: rest).filter (middle < ·.due) = head :: rest := by
          simpa [List.filter_eq_self] using hlater
        rw [hnone, hall, List.nil_append]

theorem filter_later {middle target : Nat} (hle : middle ≤ target) (queue : List Trigger) :
    (queue.filter (middle < ·.due)).filter (target < ·.due) = queue.filter (target < ·.due) := by
  rw [List.filter_filter]
  refine List.filter_congr ?_
  intro trigger _
  simp only [← Bool.decide_and, decide_eq_decide]
  omega

/-- After a firing there is nothing new, and what is left waits in its order. -/
theorem fire_fire_eq (clock middle target : Nat) (agenda : Agenda) :
    (agenda.fire clock middle).2.fire middle target =
      (((agenda.queue clock).filter (middle < ·.due)).filter (·.due ≤ target),
        { agenda with
          fresh := []
          waiting := ((agenda.queue clock).filter (middle < ·.due)).filter (target < ·.due) }) := by
  simp [fire, late, queue]

/-- A stop on the way changes neither what fires nor what is left. -/
theorem Ledger.fire_fire {settled recent : List Cue} {fired : List Trigger} {clock : Nat}
    {agenda : Agenda} (hledger : Ledger settled recent fired clock agenda) {middle target : Nat}
    (hle : middle ≤ target) :
    (agenda.fire clock target).1 =
        (agenda.fire clock middle).1 ++ ((agenda.fire clock middle).2.fire middle target).1 ∧
      (agenda.fire clock target).2 = ((agenda.fire clock middle).2.fire middle target).2 := by
  refine ⟨?_, ?_⟩
  · rw [fire_fire_eq, Agenda.fire, Agenda.fire, List.append_assoc,
      filter_due_append hledger.pairwise_queue hle]
  · rw [fire_fire_eq, filter_later hle, Agenda.fire]

/-- If the clock goes to the last trigger everything fires, and nothing more if it goes beyond. -/
theorem fire_of_latest_le {clock target : Nat} {agenda : Agenda}
    (hlatest : agenda.latest ≤ target) :
    agenda.fire clock target =
      (agenda.late clock ++ agenda.queue clock, { agenda with fresh := [], waiting := [] }) := by
  have hdue : ∀ trigger ∈ agenda.queue clock, trigger.due ≤ target := by
    intro trigger htrigger
    refine Nat.le_trans (due_le_latest ?_) hlatest
    rcases mem_queue.mp htrigger with hwaiting | ⟨hfresh, _⟩
    · exact List.mem_append_right _ hwaiting
    · exact List.mem_append_left _ hfresh
  have hall : (agenda.queue clock).filter (·.due ≤ target) = agenda.queue clock := by
    simpa [List.filter_eq_self] using hdue
  have hnone : (agenda.queue clock).filter (target < ·.due) = [] := by
    simpa [List.filter_eq_nil_iff] using hdue
  rw [fire, hall, hnone]

/-- Firing what is due now does not change when the last trigger is due, unless that is past. -/
theorem max_latest_fire (clock : Nat) (agenda : Agenda) :
    max clock (agenda.fire clock clock).2.latest = max clock agenda.latest := by
  refine Nat.le_antisymm ?_ ?_
  · refine Nat.max_le.mpr ⟨Nat.le_max_left _ _, ?_⟩
    refine latest_le ?_
    intro trigger htrigger
    have hpending := (mem_waiting_fire (Nat.le_refl clock)).mp htrigger
    have hlatest := due_le_latest (List.mem_append.mpr hpending.1)
    exact Nat.le_trans hlatest (Nat.le_max_right _ _)
  · refine Nat.max_le.mpr ⟨Nat.le_max_left _ _, ?_⟩
    refine latest_le ?_
    intro trigger htrigger
    by_cases hdue : trigger.due ≤ clock
    · exact Nat.le_trans hdue (Nat.le_max_left _ _)
    · have hleft := (mem_waiting_fire (Nat.le_refl clock)).mpr
        ⟨List.mem_append.mp htrigger, Nat.not_le.mp hdue⟩
      exact Nat.le_trans (due_le_latest (List.mem_append_right _ hleft)) (Nat.le_max_right _ _)

/-- Nor does it change how far a session goes on that is played out then. -/
theorem max_horizon_fire (clock : Nat) (agenda : Agenda) :
    max clock (agenda.fire clock clock).2.horizon = max clock agenda.horizon := by
  rw [horizon, horizon, ← Nat.max_assoc, ← Nat.max_assoc, max_latest_fire]

end Captions.Agenda
