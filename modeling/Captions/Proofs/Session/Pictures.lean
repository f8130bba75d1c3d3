import Captions.Proofs.Session.Calls

/-! # What is seen of a session

A step that fires answers with what it leaves on the board: the texts there or, at the end,
the record. All calls of a script are made in such steps.
-/

namespace Captions.Session

/-- Whether a result tells of the board. -/
def Result.isView : Result → Bool
  | .visible _ | .finished _ | .lost => true
  | .scheduled _ | .malformed _ | .ingested _ | .cancelled _ | .prepared => false

/-- What a step that fires tells of the session that it leaves. -/
def Step.view (session : Session Recorder) : Step → Result
  | .finish => session.remaining.elim .lost .finished
  | _ => .visible session.visible

/-- What is seen of the board in a step: its calls and its result. -/
def Answer.picture? (answer : Answer) : Option (List Call × Result) :=
  if answer.result.isView then some (answer.calls, answer.result) else none

/-- What is seen of the board during a script. -/
def pictures (session : Session Recorder) (script : List Step) : List (List Call × Result) :=
  (session.run script).filterMap Answer.picture?

variable {session other : Session Recorder} {step : Step}

theorem result_of_fires (hfires : step.fires) :
    (session.step step).1.result = step.view (session.step step).2 := by
  cases step with
  | advance | visible | finish => rfl
  | schedule | ingest | cancel | failAfter | crash => cases hfires

/-- Just the steps that fire tell of the board. -/
theorem isView_result (session : Session Recorder) (step : Step) :
    (session.step step).1.result.isView = step.fires := by
  cases step with
  | schedule line =>
      rw [Session.step, perform]
      cases Cue.parse line with
      | ok cue => rfl
      | error error => rfl
  | ingest | cancel | advance | visible | failAfter | crash => rfl
  | finish =>
      rw [result_of_fires rfl, Step.view]
      cases (session.step .finish).2.remaining with
      | none => rfl
      | some shown => rfl

theorem Step.view_congr (hboard : session.board = other.board)
    (halive : session.alive = other.alive) (step : Step) : step.view session = step.view other := by
  cases step with
  | finish => simp only [view, remaining, hboard, halive]
  | schedule | ingest | cancel | advance | visible | failAfter | crash =>
      simp only [view, Session.visible, hboard, halive]

theorem picture?_of_fires (hfires : step.fires) :
    (session.step step).1.picture? =
      some ((session.step step).2.board.display.calls.toList, step.view (session.step step).2) := by
  rw [Answer.picture?, isView_result, if_pos hfires, calls_step, result_of_fires hfires]

theorem picture?_of_not_fires (hquiet : ¬ step.fires) : (session.step step).1.picture? = none := by
  rw [Answer.picture?, isView_result, if_neg hquiet]

theorem pictures_append (session : Session Recorder) (past others : List Step) :
    session.pictures (past ++ others) =
      session.pictures past ++ (session.play past).pictures others := by
  rw [pictures, run_append, List.filterMap_append, pictures, pictures]

theorem pictures_of_fires (hfires : step.fires) :
    session.pictures [step] =
      [((session.step step).2.board.display.calls.toList, step.view (session.step step).2)] := by
  rw [pictures, run, run, List.filterMap_cons, picture?_of_fires hfires]
  rfl

theorem pictures_of_not_fires (hquiet : ¬ step.fires) : session.pictures [step] = [] := by
  rw [pictures, run, run, List.filterMap_cons, picture?_of_not_fires hquiet]
  rfl

/-- All calls of a script are seen. -/
theorem calls_eq_flatMap_pictures (session : Session Recorder) (script : List Step) :
    session.calls script = (session.pictures script).flatMap Prod.fst := by
  induction script generalizing session with
  | nil => rfl
  | cons first rest ih =>
      have hrest := ih (session.step first).2
      have hpictures : session.pictures (first :: rest) = session.pictures [first] ++
        (session.step first).2.pictures rest := session.pictures_append [first] rest
      have hcalls : session.calls (first :: rest) = (session.step first).1.calls ++
        (session.step first).2.calls rest := rfl
      rw [hpictures, hcalls, List.flatMap_append, hrest]
      by_cases hfires : first.fires
      · rw [pictures_of_fires hfires, List.flatMap_singleton, calls_step]
      · rw [pictures_of_not_fires hfires, (calls_step_of_not_fires session hfires).1]
        rfl

end Captions.Session
