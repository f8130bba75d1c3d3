import Captions.Proofs.Board.Calls
import Captions.Proofs.Session.Replay

/-! # The calls of a session

Which calls an action asks for is settled by the frame and the record. Either it asks for
none and leaves the session as it is, or it draws something; then the display ends as
these calls leave it. If no call fails, the calls of a session are those of its triggers.
-/

namespace Captions

/-- The calls that an action asks for on a board with some frame and record. -/
def Action.calls (frame : Frame) (shown : Shown) : Action → List Call
  | .showCue cue =>
    match Color.resolve cue.color with
    | .ok color =>
      Board.paintAt (frame.layout (cue.placement.getD .centered) cue.text.length) cue.text color
        ++ Board.park
    | .error _ => []
  | .hideText text =>
    match shown.find? text with
    | none => []
    | some placement =>
      Board.paintAt (frame.layout placement text.length) (Board.blank text.length) .default
        ++ Board.park

namespace Session

variable {δ : Type} [Display δ] {session : Session δ} {action : Action}

/-- What an action can do: it has nothing to draw, or it draws with the calls that it asks
for and reports a refusal. -/
theorem act_cases (action : Action) (session : Session δ) :
    (action.calls session.board.frame session.board.shown = [] ∧
        (session.act action).2 = session ∧
        action.mark.apply session.board.shown = session.board.shown) ∨
      ∃ (calls : List Call) (change : Shown → Shown) (report : DrawError → Event)
        (events : List Event),
        action.calls session.board.frame session.board.shown = calls ++ Board.park ∧
        session.act action = session.settle report
          ⟨.ofStatus (session.board.draw calls change).1, events,
            (session.board.draw calls change).2⟩ ∧
        change session.board.shown = action.mark.apply session.board.shown ∧
        ∀ fault, (report (.display fault)).isRefusal := by
  cases action with
  | showCue cue =>
      cases hcolor : Color.resolve cue.color with
      | error error =>
          have hdrawable := Cue.not_isDrawable_of_resolve_eq_error hcolor
          refine .inl ⟨by simp only [Action.calls, hcolor], by simp only [act, hcolor], ?_⟩
          simp only [Action.mark, if_neg hdrawable, Mark.apply]
      | ok color =>
          have hdrawable : cue.IsDrawable := Cue.exists_resolve_eq_ok.mp ⟨color, hcolor⟩
          refine .inr ⟨_, _, .failedToShow cue.text, _,
            by simp only [Action.calls, hcolor]; rfl, by simp only [act, hcolor]; rfl, ?_,
            fun _ => rfl⟩
          simp only [Action.mark, if_pos hdrawable, Mark.apply]
  | hideText text =>
      cases hplace : session.board.shown.find? text with
      | none =>
          refine .inl ⟨by simp only [Action.calls, hplace], ?_,
            Shown.erase_of_find?_eq_none hplace⟩
          simp only [act, Board.hideText, hplace, settle]
      | some placement =>
          exact .inr ⟨_, Shown.erase text, .failedToHide text, _,
            by simp only [Action.calls, hplace]; rfl,
            by simp only [act, Board.hideText, hplace]; rfl, rfl, fun _ => rfl⟩

/-- An action that asks for no calls leaves the session as it is. -/
theorem act_of_calls_eq_nil
    (hcalls : action.calls session.board.frame session.board.shown = []) :
    (session.act action).2 = session := by
  rcases act_cases action session with ⟨_, hact, _⟩ | ⟨calls, _, _, _, hsome, _⟩
  · exact hact
  · rw [hcalls] at hsome
    cases (List.append_eq_nil_iff.mp hsome.symm).2

/-- Without a display nothing is carried out. -/
theorem actAll_of_not_alive (hdead : ¬ session.alive) (triggers : List Trigger) :
    session.actAll triggers = ([], session) := by
  cases triggers with
  | nil => rfl
  | cons => rw [actAll, if_neg hdead]

omit [Display δ] in
theorem alive_settle (report : DrawError → Event) (status : Status) (events : List Event)
    (board : Board δ) (session : Session δ) :
    (session.settle report ⟨.ofStatus status, events, board⟩).2.alive ↔
      session.alive ∧ status ≠ .broken := by
  cases status with
  | done => exact (and_iff_left nofun).symm
  | refused fault => exact (and_iff_left nofun).symm
  | broken => exact iff_of_false nofun fun hboth => hboth.2 rfl

theorem display_act (action : Action) (session : Session δ) :
    (session.act action).2.board.display =
      (carryOut (action.calls session.board.frame session.board.shown)
        session.board.display).2 := by
  rcases act_cases action session with
    ⟨hcalls, hact, _⟩ | ⟨calls, change, report, events, hcalls, hact, _⟩
  · rw [hcalls, hact]
    rfl
  · rw [hcalls, hact, board_settle, Board.display_draw]

theorem frame_act (action : Action) (session : Session δ) :
    (session.act action).2.board.frame = session.board.frame := by
  rcases act_cases action session with ⟨_, hact, _⟩ | ⟨calls, change, report, events, _, hact, _⟩
  · rw [hact]
  · rw [hact, board_settle, Board.frame_draw]

/-- Only a call that breaks the display takes the board away. -/
theorem alive_act (action : Action) (session : Session δ) :
    (session.act action).2.alive ↔ session.alive ∧
      (carryOut (action.calls session.board.frame session.board.shown)
        session.board.display).1 ≠ .broken := by
  rcases act_cases action session with
    ⟨hcalls, hact, _⟩ | ⟨calls, change, report, events, hcalls, hact, _⟩
  · rw [hcalls, hact]
    exact (and_iff_left nofun).symm
  · rw [hcalls, hact, alive_settle, Board.status_draw]

/-- A refused call is reported. -/
theorem exists_isRefusal_act {fault : Fault}
    (hrefused : (carryOut (action.calls session.board.frame session.board.shown)
      session.board.display).1 = .refused fault) :
    ∃ event ∈ (session.act action).1, event.isRefusal := by
  rcases act_cases action session with
    ⟨hcalls, _⟩ | ⟨calls, change, report, events, hcalls, hact, _, hreport⟩
  · rw [hcalls] at hrefused
    cases hrefused
  · rw [hcalls, ← Board.status_draw calls change] at hrefused
    rw [hact, hrefused]
    exact ⟨_, List.mem_append_right events List.mem_cons_self, hreport fault⟩

/-- If its calls are done, an action changes the record as on a display that takes every
call. -/
theorem shown_act_of_done
    (hdone : (carryOut (action.calls session.board.frame session.board.shown)
      session.board.display).1 = .done) :
    (session.act action).2.board.shown = action.mark.apply session.board.shown := by
  rcases act_cases action session with
    ⟨_, hact, hshown⟩ | ⟨calls, change, report, events, hcalls, hact, hchange, _⟩
  · rw [hact, hshown]
  · rw [hcalls, ← Board.status_draw calls change] at hdone
    rw [hact, board_settle, Board.shown_draw_of_done hdone, hchange]

/-- The calls of an action that neither breaks the display nor reports a refusal are done. -/
theorem done_of_alive_act (halive : (session.act action).2.alive)
    (hcalm : ∀ event ∈ (session.act action).1, ¬ event.isRefusal) :
    (carryOut (action.calls session.board.frame session.board.shown)
      session.board.display).1 = .done := by
  have hbroken := ((alive_act action session).mp halive).2
  generalize hstatus : (carryOut (action.calls session.board.frame session.board.shown)
    session.board.display).1 = status at hbroken
  cases status with
  | done => rfl
  | refused fault =>
      obtain ⟨event, hevent, hrefusal⟩ := exists_isRefusal_act hstatus
      exact absurd hrefusal (hcalm event hevent)
  | broken => exact absurd rfl hbroken

theorem frame_actAll (triggers : List Trigger) (session : Session δ) :
    (session.actAll triggers).2.board.frame = session.board.frame := by
  induction triggers generalizing session with
  | nil => rfl
  | cons trigger rest ih =>
      rw [actAll]
      split
      next => exact (ih _).trans (frame_act _ _)
      next => rfl

end Session

/-- The calls that triggers ask for one after the other, each on the record that those before
it leave. -/
def Trigger.calls (frame : Frame) (shown : Shown) : List Trigger → List Call
  | [] => []
  | trigger :: rest =>
    trigger.action.calls frame shown ++ calls frame (trigger.mark.apply shown) rest

theorem Trigger.calls_append (frame : Frame) (shown : Shown) (triggers others : List Trigger) :
    calls frame shown (triggers ++ others) =
      calls frame shown triggers ++ calls frame (replay shown triggers) others := by
  induction triggers generalizing shown with
  | nil => rfl
  | cons trigger rest ih =>
      rw [List.cons_append, calls, calls, ih, List.append_assoc]
      rfl

namespace Session

/-- On a reliable display the triggers make all their calls. -/
theorem display_actAll_of_keeps {δ : Type} [Display δ] {session : Session δ}
    (hkeeps : session.Keeps Display.IsReliable) (triggers : List Trigger) :
    (session.actAll triggers).2.board.display =
      (carryOut (Trigger.calls session.board.frame session.board.shown triggers)
        session.board.display).2 := by
  induction triggers generalizing session with
  | nil => rfl
  | cons trigger rest ih =>
      rw [actAll, if_pos hkeeps.alive, Trigger.calls,
        carryOut_append_of_done (hkeeps.display _), ← display_act]
      refine (ih (hkeeps.act Display.guards_isReliable trigger.action)).trans ?_
      rw [frame_act, shown_act_of_isReliable hkeeps.display]
      rfl

/-- If no call fails, the triggers make all their calls and change the record as they
should. -/
theorem actAll_of_calm {triggers : List Trigger} {session : Session Recorder}
    (halive : (session.actAll triggers).2.alive)
    (hcalm : ∀ event ∈ (session.actAll triggers).1, ¬ event.isRefusal) :
    (session.actAll triggers).2.board.shown = Trigger.replay session.board.shown triggers ∧
      (session.actAll triggers).2.board.display.calls.toList =
        session.board.display.calls.toList ++
          Trigger.calls session.board.frame session.board.shown triggers := by
  induction triggers generalizing session with
  | nil => exact ⟨rfl, (List.append_nil _).symm⟩
  | cons trigger rest ih =>
      have hfirst := alive_of_alive_actAll halive
      rw [actAll, if_pos hfirst] at halive hcalm ⊢
      obtain ⟨hcalmFirst, hcalmRest⟩ := List.forall_mem_append.mp hcalm
      have hdone := done_of_alive_act (alive_of_alive_actAll halive) hcalmFirst
      have hshown : (session.act trigger.action).2.board.shown =
          trigger.mark.apply session.board.shown := shown_act_of_done hdone
      obtain ⟨hshownRest, hcallsRest⟩ := ih halive hcalmRest
      rw [hshown] at hshownRest hcallsRest
      refine ⟨hshownRest, ?_⟩
      rw [hcallsRest, frame_act, display_act, Recorder.calls_carryOut_of_done hdone,
        Array.toList_appendList, List.append_assoc]
      rfl

theorem advance_eq_actAll {δ : Type} [Display δ] (session : Session δ) (time : Nat) :
    (session.advance time).events = (session.actAll (session.advance time).fired).1 ∧
      (session.advance time).session.board =
        (session.actAll (session.advance time).fired).2.board ∧
      (session.advance time).session.alive =
        (session.actAll (session.advance time).fired).2.alive := by
  simp only [advance, actAll_with, and_self]

/-- All calls that the display has carried out in some steps. -/
def calls (session : Session Recorder) (past : List Step) : List Call :=
  (session.run past).flatMap Answer.calls

theorem calls_concat (session : Session Recorder) (past : List Step) (step : Step) :
    session.calls (past ++ [step]) =
      session.calls past ++ ((session.play past).step step).1.calls := by
  rw [calls, run_concat, List.flatMap_append, List.flatMap_singleton]
  rfl

variable {session : Session Recorder} {step : Step}

/-- A step that fires carries out its triggers on a recorder with nothing written down. -/
theorem step_eq_actAll (session : Session Recorder) (hfires : step.fires) :
    (session.step step).1.events =
        ((session.mapDisplay Recorder.rewind).actAll (session.step step).1.fired).1 ∧
      (session.step step).2.board =
        ((session.mapDisplay Recorder.rewind).actAll (session.step step).1.fired).2.board ∧
      (session.step step).2.alive =
        ((session.mapDisplay Recorder.rewind).actAll (session.step step).1.fired).2.alive := by
  obtain ⟨time, _, hfired, hevents, hsession⟩ := exists_advance_of_fires session hfires
  rw [hfired, hevents, hsession]
  exact advance_eq_actAll (session.mapDisplay Recorder.rewind) time

/-- The answer to a step holds what the recorder has written down in it. -/
theorem calls_step (session : Session Recorder) (step : Step) :
    (session.step step).1.calls = (session.step step).2.board.display.calls.toList := by
  cases step with
  | schedule line =>
      rw [Session.step, perform]
      split
      next => rfl
      next => rfl
  | ingest | cancel | advance | visible | failAfter | crash | finish => rfl

/-- A step that does not fire makes no calls and neither draws nor breaks anything. -/
theorem calls_step_of_not_fires (session : Session Recorder) (hquiet : ¬ step.fires) :
    (session.step step).1.calls = [] ∧
      (session.step step).2.board.frame = session.board.frame ∧
      (session.step step).2.alive = session.alive := by
  cases step with
  | schedule line =>
      rw [Session.step, perform]
      split
      next => exact ⟨rfl, rfl, rfl⟩
      next => exact ⟨rfl, rfl, rfl⟩
  | ingest lines =>
      rw [calls_step, step_ingest]
      exact ⟨rfl, rfl, rfl⟩
  | cancel | failAfter | crash => exact ⟨rfl, rfl, rfl⟩
  | advance | visible | finish => exact absurd rfl hquiet

theorem alive_of_alive_step (halive : (session.step step).2.alive) : session.alive := by
  by_cases hfires : step.fires
  · obtain ⟨_, _, hsame⟩ := step_eq_actAll session hfires
    rw [hsame] at halive
    have hrewound : (session.mapDisplay Recorder.rewind).alive := alive_of_alive_actAll halive
    exact hrewound
  · obtain ⟨_, _, hsame⟩ := calls_step_of_not_fires session hfires
    exact hsame ▸ halive

theorem frame_step (session : Session Recorder) (step : Step) :
    (session.step step).2.board.frame = session.board.frame := by
  by_cases hfires : step.fires
  · obtain ⟨_, hboard, _⟩ := step_eq_actAll session hfires
    rw [hboard]
    exact frame_actAll _ (session.mapDisplay Recorder.rewind)
  · exact (calls_step_of_not_fires session hfires).2.1

/-- If no call fails in a step, it makes the calls of its triggers and changes the record as
they should. -/
theorem step_of_calm (halive : (session.step step).2.alive)
    (hcalm : ∀ event ∈ (session.step step).1.events, ¬ event.isRefusal) :
    (session.step step).2.board.shown =
        Trigger.replay session.board.shown (session.step step).1.fired ∧
      (session.step step).1.calls =
        Trigger.calls session.board.frame session.board.shown (session.step step).1.fired := by
  by_cases hfires : step.fires
  · obtain ⟨hevents, hboard, hsame⟩ := step_eq_actAll session hfires
    rw [hevents] at hcalm
    rw [hsame] at halive
    obtain ⟨hshown, hcalls⟩ := actAll_of_calm halive hcalm
    rw [calls_step, hboard, hcalls]
    exact ⟨hshown, rfl⟩
  · obtain ⟨hfired, _, hshown, _⟩ := step_of_not_fires session hfires
    rw [hfired, hshown, (calls_step_of_not_fires session hfires).1]
    exact ⟨rfl, rfl⟩

end Session

end Captions
