import Captions.Proofs.Agenda.Triggers
import Captions.Session

/-! # Tasks that race for the board

Here every cue has two tasks of its own, which run in any order that their times
and the handshake between them allow: the hide waits until the show has run or was
aborted. A task that runs puts a trigger into a queue. The board takes the triggers
from the queue one at a time, at any later moment.
-/

namespace Captions

/-- How far a task has come. -/
inductive TaskState where
  | armed
  | ran
  | aborted
deriving DecidableEq, Repr

/-- What cancelling does to a task: one that has run stays as it is. -/
def TaskState.abort : TaskState → TaskState
  | armed => aborted
  | ran => ran
  | aborted => aborted

/-- A cue with its two tasks. -/
structure CueTasks where
  cue : Cue
  showTask : TaskState := .armed
  hideTask : TaskState := .armed
deriving DecidableEq, Repr

def CueTasks.abort (tasks : CueTasks) : CueTasks :=
  { tasks with showTask := tasks.showTask.abort, hideTask := tasks.hideTask.abort }

/-- The cues in the order of scheduling with their tasks, the triggers that were
sent to the board and not taken yet, the clock with the board, and what was logged
about the triggers that were taken. -/
structure Race (δ : Type) where
  tasks : List CueTasks := []
  queue : List Trigger := []
  session : Session δ
  events : List Event := []

namespace Race

variable {δ : Type}

/-- One move of a race. -/
inductive Move where
  | schedule (cue : Cue)
  | tick (time : Nat)
  /-- A task runs. -/
  | send (trigger : Trigger)
  | cancel (id : Nat)
  /-- The board carries out the trigger at the head of the queue. -/
  | apply (trigger : Trigger)
deriving DecidableEq, Repr

def start (board : Board δ) : Race δ :=
  { session := .start board }

/-- The moves that are possible, with the race after them. If the display broke,
nobody takes triggers from the queue any more. -/
inductive Step [Display δ] (race : Race δ) : Move → Race δ → Prop
  | schedule (cue : Cue) :
      Step race (.schedule cue) { race with tasks := race.tasks ++ [{ cue := cue }] }
  | tick {time : Nat} (hclock : race.session.clock ≤ time) :
      Step race (.tick time) { race with session := { race.session with clock := time } }
  | sendShow {id : Nat} {tasks : CueTasks} (htasks : race.tasks[id]? = some tasks)
      (harmed : tasks.showTask = .armed) (hdue : tasks.cue.showAt ≤ race.session.clock) :
      Step race (.send (tasks.cue.showTrigger id))
        { race with
          tasks := race.tasks.set id { tasks with showTask := .ran }
          queue := race.queue ++ [tasks.cue.showTrigger id] }
  | sendHide {id : Nat} {tasks : CueTasks} (htasks : race.tasks[id]? = some tasks)
      (harmed : tasks.hideTask = .armed) (hdue : tasks.cue.hideAt ≤ race.session.clock)
      (hshown : tasks.showTask ≠ .armed) :
      Step race (.send (tasks.cue.hideTrigger id))
        { race with
          tasks := race.tasks.set id { tasks with hideTask := .ran }
          queue := race.queue ++ [tasks.cue.hideTrigger id] }
  | cancel {id : Nat} {tasks : CueTasks} (htasks : race.tasks[id]? = some tasks) :
      Step race (.cancel id) { race with tasks := race.tasks.set id tasks.abort }
  | apply {trigger : Trigger} {rest : List Trigger} (hqueue : race.queue = trigger :: rest)
      (halive : race.session.alive) :
      Step race (.apply trigger)
        { race with
          queue := rest
          session := (race.session.act trigger.action).2
          events := race.events ++ (race.session.act trigger.action).1 }

/-- Moves made one after the other. -/
inductive Run [Display δ] : Race δ → List Move → Race δ → Prop
  | nil (race : Race δ) : Run race [] race
  | cons {race next last : Race δ} {move : Move} {moves : List Move} (hstep : Step race move next)
      (hrest : Run next moves last) : Run race (move :: moves) last

/-- The cues that were scheduled. -/
def scheduled (moves : List Move) : List Cue :=
  moves.filterMap fun move => match move with
    | .schedule cue => some cue
    | _ => none

/-- The triggers that were sent to the board. -/
def sent (moves : List Move) : List Trigger :=
  moves.filterMap fun move => match move with
    | .send trigger => some trigger
    | _ => none

/-- The triggers that the board carried out. -/
def applied (moves : List Move) : List Trigger :=
  moves.filterMap fun move => match move with
    | .apply trigger => some trigger
    | _ => none

theorem scheduled_append (first second : List Move) :
    scheduled (first ++ second) = scheduled first ++ scheduled second :=
  List.filterMap_append

theorem sent_append (first second : List Move) :
    sent (first ++ second) = sent first ++ sent second :=
  List.filterMap_append

theorem applied_append (first second : List Move) :
    applied (first ++ second) = applied first ++ applied second :=
  List.filterMap_append

/-- What holds after some moves and is kept by every move holds after a whole run. -/
theorem Run.invariant [Display δ] {holds : List Move → Race δ → Prop}
    (hstep : ∀ past race move next, holds past race → Step race move next →
      holds (past ++ [move]) next)
    {past moves : List Move} {race last : Race δ} (hpast : holds past race)
    (hrun : Run race moves last) : holds (past ++ moves) last := by
  induction hrun generalizing past with
  | nil race => rwa [List.append_nil]
  | cons hmove _ ih =>
      have hnext := ih (hstep _ _ _ _ hpast hmove)
      rwa [List.append_assoc] at hnext

theorem Run.append [Display δ] {race middle last : Race δ} {first second : List Move}
    (hfirst : Run race first middle) (hsecond : Run middle second last) :
    Run race (first ++ second) last := by
  induction hfirst with
  | nil => exact hsecond
  | cons hstep _ ih => exact .cons hstep (ih hsecond)

theorem Run.split [Display δ] {race last : Race δ} {first second : List Move}
    (hrun : Run race (first ++ second) last) :
    ∃ middle, Run race first middle ∧ Run middle second last := by
  induction first generalizing race with
  | nil => exact ⟨race, .nil race, hrun⟩
  | cons move rest ih =>
      cases hrun with
      | cons hstep hrest =>
          obtain ⟨middle, hfirst, hsecond⟩ := ih hrest
          exact ⟨middle, .cons hstep hfirst, hsecond⟩

/-- A task does not run before its time. -/
theorem due_le_clock_of_send [Display δ] {race next : Race δ} {trigger : Trigger}
    (hstep : Step race (.send trigger) next) : trigger.due ≤ race.session.clock := by
  cases hstep with
  | sendShow _ _ hdue => exact hdue
  | sendHide _ _ hdue _ => exact hdue

end Race

end Captions
