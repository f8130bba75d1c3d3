import Captions.Cue.Basic
import Captions.Timecode

/-! # The agenda of a session

Scheduling a cue arms two triggers, one that shows it and one that hides it. The
agenda keeps the triggers that have not fired, those armed since the last firing
apart from the others, and decides which fire and in what order.
-/

namespace Captions

/-- What a trigger does when it fires. -/
inductive Action where
  | showCue (cue : Cue)
  | hideText (text : String)
deriving DecidableEq, Repr

/-- An action to be taken at a time, in milliseconds, for the cue with a given
number. -/
structure Trigger where
  cue : Nat
  due : Nat
  action : Action
deriving DecidableEq, Repr

namespace Trigger

/-- The place of a trigger in the order of arming: cues in the order of their
numbers, for each cue its show before its hide. -/
def rank (trigger : Trigger) : Nat :=
  match trigger.action with
  | .showCue _ => 2 * trigger.cue
  | .hideText _ => 2 * trigger.cue + 1

/-- Whether a trigger fires no later than another one of the queue: by time, at
the same time by rank. -/
def comesFirst (a b : Trigger) : Bool :=
  a.due < b.due || (a.due == b.due && a.rank ≤ b.rank)

/-- The two triggers of a cue. -/
def pair (id : Nat) (cue : Cue) : List Trigger :=
  [⟨id, cue.showAt, .showCue cue⟩, ⟨id, cue.hideAt, .hideText cue.text⟩]

end Trigger

/-- The triggers of a session that have not fired. -/
structure Agenda where
  /-- How many cues were scheduled; they are numbered from zero. -/
  size : Nat := 0
  /-- The cues that were cancelled. -/
  cancelled : List Nat := []
  /-- The triggers armed since the last firing, in the order of arming. -/
  fresh : List Trigger := []
  /-- The triggers that were there at the last firing, in the order of firing. -/
  waiting : List Trigger := []
deriving DecidableEq, Repr

namespace Agenda

/-- Arms the triggers of a cue and numbers it. -/
def arm (cue : Cue) (agenda : Agenda) : Nat × Agenda :=
  (agenda.size,
    { agenda with
      size := agenda.size + 1
      fresh := agenda.fresh ++ Trigger.pair agenda.size cue })

/-- Whether a cue can be cancelled: it was scheduled and not cancelled before. -/
def canCancel (id : Nat) (agenda : Agenda) : Bool :=
  id < agenda.size && !agenda.cancelled.contains id

/-- Disarms the triggers of a cue that have not fired. -/
def cancel (id : Nat) (agenda : Agenda) : Agenda :=
  if agenda.canCancel id then
    { agenda with
      cancelled := id :: agenda.cancelled
      fresh := agenda.fresh.filter (·.cue ≠ id)
      waiting := agenda.waiting.filter (·.cue ≠ id) }
  else agenda

/-- Puts a trigger into its place in a queue. -/
def enqueue (trigger : Trigger) : List Trigger → List Trigger
  | [] => [trigger]
  | other :: rest =>
    if trigger.comesFirst other then trigger :: other :: rest
    else other :: enqueue trigger rest

/-- The triggers armed since the last firing whose time is not after the clock. -/
def late (clock : Nat) (agenda : Agenda) : List Trigger :=
  agenda.fresh.filter (·.due ≤ clock)

/-- All other triggers in the order of firing. -/
def queue (clock : Nat) (agenda : Agenda) : List Trigger :=
  (agenda.fresh.filter (clock < ·.due)).foldr enqueue agenda.waiting

/-- Fires what is due when the clock goes on from `clock` to `target`. Triggers
that are late already go first, in the order of arming; the others follow in the
order of the queue. -/
def fire (clock target : Nat) (agenda : Agenda) : List Trigger × Agenda :=
  (agenda.late clock ++ (agenda.queue clock).filter (·.due ≤ target),
    { agenda with
      fresh := []
      waiting := (agenda.queue clock).filter (target < ·.due) })

/-- Whether all triggers have fired or been cancelled. -/
def isIdle (agenda : Agenda) : Bool :=
  agenda.fresh.isEmpty && agenda.waiting.isEmpty

/-- The time of the last trigger. -/
def latest (agenda : Agenda) : Nat :=
  (agenda.fresh ++ agenda.waiting).foldr (fun trigger time => max trigger.due time) 0

/-- A time when all that is left is due, and whatever could still be written in a
line as well. -/
def horizon (agenda : Agenda) : Nat :=
  max agenda.latest Timecode.last.offset

theorem mem_enqueue {trigger other : Trigger} {queue : List Trigger} :
    other ∈ enqueue trigger queue ↔ other = trigger ∨ other ∈ queue := by
  induction queue with
  | nil => simp [enqueue]
  | cons head rest ih =>
      simp only [enqueue]
      split
      next => simp
      next => simp [ih, or_left_comm]

theorem mem_queue {clock : Nat} {agenda : Agenda} {trigger : Trigger} :
    trigger ∈ agenda.queue clock ↔
      trigger ∈ agenda.waiting ∨ (trigger ∈ agenda.fresh ∧ clock < trigger.due) := by
  unfold queue
  generalize agenda.fresh = fresh
  induction fresh with
  | nil => simp
  | cons head rest ih =>
      simp only [List.filter_cons]
      split <;> grind [mem_enqueue]

end Agenda

end Captions
