import Captions.Agenda
import Captions.Board
import Captions.Reading

/-! # Sessions

A session plays cues on a board against a clock that starts at zero. Cues may be
scheduled at any time; their times count from the start of the session. A cue
that cannot be drawn is reported and does not disturb the others. If the display
breaks, the triggers still fire, but nothing is drawn or reported for them any
more.
-/

namespace Captions

/-- The clock in milliseconds, the triggers that have not fired, and the board. -/
structure Session (δ : Type) where
  clock : Nat := 0
  agenda : Agenda := {}
  board : Board δ
  /-- Whether the display has not broken. -/
  alive : Bool := true

/-- What came of an operation of a session: the triggers that fired, what was
logged, and the session after it. -/
structure Turn (δ : Type) where
  fired : List Trigger := []
  events : List Event := []
  session : Session δ

namespace Session

variable {δ : Type}

/-- A session that has not started to play. -/
def start (board : Board δ) : Session δ :=
  { board }

/-- Schedules a cue. Nothing is drawn by that. -/
def schedule (cue : Cue) (session : Session δ) : Nat × Turn δ :=
  let armed := session.agenda.arm cue
  (armed.1,
    { events := [.armingCue cue.text cue.showAt cue.hideAt]
      session := { session with agenda := armed.2 } })

/-- Takes in one line of an input: a cue is scheduled. -/
def takeIn (entry : Entry) (session : Session δ) : Turn δ :=
  match entry with
  | .accepted _ cue =>
    let turn := (session.schedule cue).2
    { turn with events := entry.event :: turn.events }
  | .rejected .. => { events := [entry.event], session }

/-- Takes in the lines of an input one after the other. -/
def takeInAll (session : Session δ) : List Entry → Turn δ
  | [] => { session }
  | entry :: rest =>
    let first := session.takeIn entry
    let others := first.session.takeInAll rest
    { others with events := first.events ++ others.events }

/-- Schedules the cues of an input up to its end or to the line that cannot be
read. -/
def ingest (lines : List Text.LineRead) (session : Session δ) : Except ReadError Report × Turn δ :=
  let reading := Reading.ofLines lines
  (reading.report, session.takeInAll reading.entries)

/-- Cancels the triggers of a cue that have not fired. -/
def cancel (id : Nat) (session : Session δ) : Bool × Session δ :=
  (session.agenda.canCancel id, { session with agenda := session.agenda.cancel id })

/-- Takes over the result of an operation on the board. A refusal is reported in
the given words. -/
def settle (report : DrawError → Event) (drawing : Drawing δ) (session : Session δ) :
    List Event × Session δ :=
  match drawing.outcome with
  | .done _ => (drawing.events, { session with board := drawing.board })
  | .refused fault =>
    (drawing.events ++ [report (.display fault)], { session with board := drawing.board })
  | .broken => (drawing.events, { session with board := drawing.board, alive := false })

/-- Carries out the action of a trigger on the board. -/
def act [Display δ] (action : Action) (session : Session δ) : List Event × Session δ :=
  match action with
  | .showCue cue =>
    match Color.resolve cue.color with
    | .ok color =>
      session.settle (.failedToShow cue.text)
        (session.board.showText (cue.placement.getD .centered) color cue.text)
    | .error error => ([.failedToShow cue.text error], session)
  | .hideText text =>
    session.settle (.failedToHide text) (session.board.hideText text)

/-- Carries out the actions of triggers in order, as long as there is a display. -/
def actAll [Display δ] (session : Session δ) : List Trigger → List Event × Session δ
  | [] => ([], session)
  | trigger :: rest =>
    if session.alive then
      let first := session.act trigger.action
      let others := first.2.actAll rest
      (first.1 ++ others.1, others.2)
    else ([], session)

/-- Moves the clock forward to a time, never back, and fires what is due. -/
def advance [Display δ] (time : Nat) (session : Session δ) : Turn δ :=
  let target := max session.clock time
  let fired := session.agenda.fire session.clock target
  let acted := { session with clock := target, agenda := fired.2 }.actAll fired.1
  { fired := fired.1, events := acted.1, session := acted.2 }

/-- Fires everything that is left. A session that is played out waits for no other
cue, so the clock goes on past every time that a line could give. -/
def playOut [Display δ] (session : Session δ) : Turn δ :=
  session.advance session.agenda.horizon

/-- The texts on the board in order; none if the display broke. -/
def visible (session : Session δ) : List String :=
  if session.alive then session.board.shown.texts else []

/-- The record of the board, unless the display broke. -/
def remaining (session : Session δ) : Option Shown :=
  if session.alive then some session.board.shown else none

end Session

end Captions
