import Captions.Display.Recorder
import Captions.Session

/-! # Session scripts

A script is a list of steps for a session on a recorder. The answer to a step
holds its result, the triggers that fired, the calls that the recorder carried
out and what was logged.
-/

namespace Captions.Session

/-- One step of a script. -/
inductive Step where
  /-- Parse a line and schedule its cue. -/
  | schedule (line : String)
  /-- Schedule all cues of an input. -/
  | ingest (lines : List Text.LineRead)
  /-- Cancel the cue with this number. -/
  | cancel (id : Nat)
  /-- Move the clock to a time and fire what is due. -/
  | advance (time : Nat)
  /-- Fire what is due at the current time. -/
  | visible
  /-- Let this many calls succeed and refuse all after them, or refuse none. -/
  | failAfter (limit : Option Nat)
  /-- Let the next call break the display. -/
  | crash
  /-- Fire all that is left and stop. -/
  | finish

/-- The result of a step. -/
inductive Result where
  | scheduled (id : Nat)
  | malformed (error : MalformedCue)
  | ingested (report : Except ReadError Report)
  | cancelled (success : Bool)
  | visible (texts : List String)
  | prepared
  | finished (shown : Shown)
  /-- The session ended without its board. -/
  | lost

/-- The answer to a step. -/
structure Answer where
  result : Result
  fired : List Trigger
  calls : List Call
  events : List Event

/-- Changes the recorder of a session. -/
def mapDisplay {δ : Type} (f : δ → δ) (session : Session δ) : Session δ :=
  { session with board := { session.board with display := f session.board.display } }

/-- Answers with a result and what came of a turn. -/
def answer (result : Result) (turn : Turn Recorder) : Answer × Session Recorder :=
  (⟨result, turn.fired, turn.session.board.display.calls.toList, turn.events⟩, turn.session)

/-- Carries out one step on a recorder that has nothing written down. -/
def perform (session : Session Recorder) : Step → Answer × Session Recorder
  | .schedule line =>
    match Cue.parse line with
    | .ok cue =>
      let scheduled := session.schedule cue
      answer (.scheduled scheduled.1) scheduled.2
    | .error error => answer (.malformed error) { session }
  | .ingest lines =>
    let ingested := session.ingest lines
    answer (.ingested ingested.1) ingested.2
  | .cancel id =>
    let cancelled := session.cancel id
    answer (.cancelled cancelled.1) { session := cancelled.2 }
  | .advance time =>
    let turn := session.advance time
    answer (.visible turn.session.visible) turn
  | .visible =>
    let turn := session.advance session.clock
    answer (.visible turn.session.visible) turn
  | .failAfter limit =>
    answer .prepared { session := session.mapDisplay (Recorder.failAfter limit) }
  | .crash => answer .prepared { session := session.mapDisplay Recorder.crash }
  | .finish =>
    let turn := session.playOut
    answer (turn.session.remaining.elim .lost .finished) turn

/-- Carries out one step; the answer holds the calls of this step only. -/
def step (session : Session Recorder) (step : Step) : Answer × Session Recorder :=
  (session.mapDisplay Recorder.rewind).perform step

/-- The answers to the steps of a script. -/
def run (session : Session Recorder) : List Step → List Answer
  | [] => []
  | first :: rest =>
    let done := session.step first
    done.1 :: done.2.run rest

end Captions.Session
