import Captions.Proofs.Session.Pictures

/-! # Failures stay on the display

Refused calls and a broken display change neither what a session has on its books nor which
triggers fire. Until a call breaks the display every command is obeyed, whatever became of
the commands before it; from then on nothing is drawn or shown any more.
-/

namespace Captions

section Obeying

variable {δ : Type} [Display δ]

/-- How a fault of an action is reported. -/
def Action.report : Action → DrawError → Event
  | .showCue cue => .failedToShow cue.text
  | .hideText text => .failedToHide text

/-- What an action draws on a board, unless its color does not exist. -/
def Action.drawing (board : Board δ) : Action → Except DrawError (Drawing δ)
  | .showCue cue =>
    (Color.resolve cue.color).map fun color =>
      board.showText (cue.placement.getD .centered) color cue.text
  | .hideText text => .ok (board.hideText text)

/-- Obeys a command: what it draws is drawn, and a fault is reported. -/
def Board.obey (board : Board δ) (action : Action) : List Event × Board δ :=
  match action.drawing board with
  | .error error => ([action.report error], board)
  | .ok drawing =>
    match drawing.outcome with
    | .refused fault => (drawing.events ++ [action.report (.display fault)], drawing.board)
    | .done _ | .broken => (drawing.events, drawing.board)

/-- Obeys commands one after the other, whatever comes of each. -/
def Board.obeyAll (board : Board δ) : List Action → List Event × Board δ
  | [] => ([], board)
  | action :: rest =>
    let first := board.obey action
    let others := first.2.obeyAll rest
    (first.1 ++ others.1, others.2)

namespace Session

variable {session : Session δ}

/-- A session has the board obey the actions of its triggers. -/
theorem act_eq_obey (action : Action) (session : Session δ) :
    ((session.act action).1, (session.act action).2.board) = session.board.obey action := by
  cases action with
  | showCue cue =>
      rw [Board.obey, Action.drawing, act]
      cases Color.resolve cue.color with
      | error error => rfl
      | ok color =>
          simp only [Except.map]
          generalize session.board.showText _ color cue.text = drawing
          obtain ⟨outcome, events, board⟩ := drawing
          cases outcome with
          | done => rfl
          | refused fault => rfl
          | broken => rfl
  | hideText text =>
      rw [Board.obey, Action.drawing, act]
      generalize session.board.hideText text = drawing
      obtain ⟨outcome, events, board⟩ := drawing
      cases outcome with
      | done => rfl
      | refused fault => rfl
      | broken => rfl

/-- A session whose display has not broken at the end has obeyed every trigger. -/
theorem actAll_eq_obeyAll {triggers : List Trigger}
    (halive : (session.actAll triggers).2.alive) :
    ((session.actAll triggers).1, (session.actAll triggers).2.board) =
      session.board.obeyAll (triggers.map Trigger.action) := by
  induction triggers generalizing session with
  | nil => rfl
  | cons trigger rest ih =>
      have hfirst := alive_of_alive_actAll halive
      rw [actAll, if_pos hfirst] at halive ⊢
      rw [List.map_cons, Board.obeyAll, ← act_eq_obey, ← ih halive]

end Session

end Obeying

/-- A recorder that is about to break carries out nothing. -/
theorem Recorder.carryOut_of_breaking {recorder : Recorder} (hhealth : recorder.health = .breaking)
    {calls : List Call} (hcalls : calls ≠ []) : carryOut calls recorder = (.broken, recorder) := by
  obtain ⟨written, health⟩ := recorder
  cases hhealth
  cases calls with
  | nil => exact absurd rfl hcalls
  | cons => rfl

namespace Session

/-- How triggers end on a recorder that is about to break: none of them asks for a call, or
the first that does breaks it and those after it are left out. -/
theorem actAll_of_not_isSound {session : Session Recorder} (halive : session.alive)
    (hunsound : ¬ session.board.display.IsSound) (triggers : List Trigger) :
    ((session.actAll triggers).2 = session ∧ ∀ trigger ∈ triggers,
        trigger.action.calls session.board.frame session.board.shown = []) ∨
      ¬ (session.actAll triggers).2.alive ∧
        (session.actAll triggers).2.board.display = session.board.display ∧
        ∃ idle trigger skipped, triggers = idle ++ trigger :: skipped ∧
          (∀ other ∈ idle, other.action.calls session.board.frame session.board.shown = []) ∧
          trigger.action.calls session.board.frame session.board.shown ≠ [] ∧
          ((session.actAll triggers).1, (session.actAll triggers).2.board) =
            session.board.obeyAll ((idle ++ [trigger]).map Trigger.action) := by
  induction triggers with
  | nil => exact .inl ⟨rfl, nofun⟩
  | cons trigger rest ih =>
      have hobeyed := act_eq_obey trigger.action session
      rw [actAll, if_pos halive]
      dsimp only
      by_cases hcalls : trigger.action.calls session.board.frame session.board.shown = []
      · rw [act_of_calls_eq_nil hcalls] at hobeyed ⊢
        rcases ih with
          ⟨hend, hrest⟩ | ⟨hdead, hdisplay, idle, last, skipped, rfl, hidle, hlast, hall⟩
        · exact .inl ⟨hend, List.forall_mem_cons.mpr ⟨hcalls, hrest⟩⟩
        · refine .inr ⟨hdead, hdisplay, trigger :: idle, last, skipped, rfl,
            List.forall_mem_cons.mpr ⟨hcalls, hidle⟩, hlast, ?_⟩
          rw [List.cons_append, List.map_cons, Board.obeyAll, ← hobeyed, ← hall]
      · have hbroken := Recorder.carryOut_of_breaking (not_not.mp hunsound) hcalls
        have hdead : ¬ (session.act trigger.action).2.alive := by
          rw [alive_act, hbroken]
          exact fun hboth => hboth.2 rfl
        have hdisplay : (session.act trigger.action).2.board.display = session.board.display := by
          rw [display_act, hbroken]
        rw [actAll_of_not_alive hdead]
        refine .inr ⟨hdead, hdisplay, [], trigger, rest, rfl, nofun, hcalls, ?_⟩
        rw [List.nil_append, List.map_cons, List.map_nil, Board.obeyAll, ← hobeyed]
        rfl

/-- Whether a step rehearses a failure, or takes that back. -/
def Step.rehearses : Step → Bool
  | .failAfter _ | .crash => true
  | _ => false

/-- What an answer enters into the books: the triggers that fired, and the result unless it
tells of the board. -/
def Answer.books (answer : Answer) : List Trigger × Option Result :=
  (answer.fired, if answer.result.isView then none else some answer.result)

/-- The books over the steps of a script that are no rehearsals. -/
def books (session : Session Recorder) (script : List Step) : List (List Trigger × Option Result) :=
  (script.zip (session.run script)).filterMap fun entry =>
    if entry.1.rehearses then none else some entry.2.books

theorem books_cons (session : Session Recorder) (first : Step) (rest : List Step) :
    session.books (first :: rest) =
      (if first.rehearses then [] else [(session.step first).1.books]) ++
        (session.step first).2.books rest := by
  rw [books, run, List.zip_cons_cons, List.filterMap_cons]
  split
  next hnone =>
    split at hnone
    next hrehearses => rw [if_pos hrehearses]; rfl
    next => cases hnone
  next entry hsome =>
    split at hsome
    next => cases hsome
    next hrehearses => rw [if_neg hrehearses]; cases hsome; rfl

/-- The result of a step unless it tells of the board. -/
def Step.result? (agenda : Agenda) : Step → Option Result
  | .schedule line =>
    match Cue.parse line with
    | .ok _ => some (.scheduled agenda.size)
    | .error error => some (.malformed error)
  | .ingest lines => some (.ingested (Reading.ofLines lines).report)
  | .cancel id => some (.cancelled (agenda.canCancel id))
  | .failAfter _ | .crash => some .prepared
  | .advance _ | .visible | .finish => none

/-- Apart from the triggers that fire, the agenda settles what a step enters into the books. -/
theorem books_step (session : Session Recorder) (step : Step) :
    (session.step step).1.books = ((session.step step).1.fired, step.result? session.agenda) := by
  rw [Answer.books, isView_result]
  cases step with
  | schedule line =>
      rw [Session.step, perform, Step.result?]
      cases Cue.parse line with
      | ok cue => rfl
      | error error => rfl
  | ingest | cancel | advance | visible | failAfter | crash | finish => rfl

/-- Two sessions with the same clock and the same agenda. -/
structure Agrees (session other : Session Recorder) : Prop where
  clock : session.clock = other.clock
  agenda : session.agenda = other.agenda

namespace Agrees

variable {session other : Session Recorder}

theorem target (hagrees : session.Agrees other) (step : Step) :
    step.target session = step.target other := by
  obtain ⟨hclock, hagenda⟩ := hagrees
  cases step with
  | advance | finish => simp only [Step.target, hclock, hagenda]
  | schedule | ingest | cancel | visible | failAfter | crash => exact hclock

/-- The clock and the agenda settle which triggers fire in a step, and what they are after
it. -/
theorem step (hagrees : session.Agrees other) (step : Step) :
    (session.step step).1.fired = (other.step step).1.fired ∧
      (session.step step).2.Agrees (other.step step).2 := by
  have htarget := hagrees.target step
  obtain ⟨hclock, hagenda⟩ := hagrees
  by_cases hfires : step.fires
  · obtain ⟨hfired, hnext, htime⟩ := step_of_fires session hfires
    obtain ⟨hfired', hnext', htime'⟩ := step_of_fires other hfires
    refine ⟨?_, ?_, ?_⟩
    · rw [hfired, hfired', hclock, hagenda, htarget]
    · rw [htime, htime', htarget]
    · rw [hnext, hnext', hclock, hagenda, htarget]
  · obtain ⟨hfired, htime, _, hnext⟩ := step_of_not_fires session hfires
    obtain ⟨hfired', htime', _, hnext'⟩ := step_of_not_fires other hfires
    refine ⟨hfired.trans hfired'.symm, htime.trans (hclock.trans htime'.symm), ?_⟩
    rcases hnext with ⟨id, rfl, hcancel⟩ | ⟨hne, harmed⟩
    · rcases hnext' with ⟨id', heq, hcancel'⟩ | ⟨hne', _⟩
      · cases heq
        rw [hcancel, hcancel', hagenda]
      · exact absurd rfl (hne' id)
    · rcases hnext' with ⟨id', heq, _⟩ | ⟨_, harmed'⟩
      · exact absurd heq (hne id')
      · rw [harmed, harmed', hagenda]

/-- A rehearsal changes neither the clock nor the agenda. -/
theorem rehearsal (hagrees : session.Agrees other) {step : Step} (hrehearses : step.rehearses) :
    (session.step step).2.Agrees other := by
  cases step with
  | failAfter | crash => exact ⟨hagrees.clock, hagrees.agenda⟩
  | schedule | ingest | cancel | advance | visible | finish => cases hrehearses

/-- Rehearsals change nothing in the books. -/
theorem books_filter (hagrees : session.Agrees other) (script : List Step) :
    session.books script = other.books (script.filter fun step => !step.rehearses) := by
  induction script generalizing session other with
  | nil => rfl
  | cons first rest ih =>
      rw [books_cons, List.filter_cons]
      by_cases hrehearses : first.rehearses
      · rw [if_pos hrehearses, hrehearses, if_neg (by decide), List.nil_append]
        exact ih (hagrees.rehearsal hrehearses)
      · obtain ⟨hfired, hnext⟩ := hagrees.step first
        rw [if_neg hrehearses, Bool.eq_false_iff.mpr hrehearses, if_pos (by decide), books_cons,
          if_neg hrehearses, books_step, books_step, hfired, hagrees.agenda, ih hnext]

end Agrees

variable {session : Session Recorder} {step : Step}

/-- Steps that neither fire nor rehearse leave the board as it is. -/
theorem board_step_of_not_fires (session : Session Recorder) (hquiet : ¬ step.fires)
    (hplain : ¬ step.rehearses) :
    (session.step step).2.board = (session.mapDisplay Recorder.rewind).board := by
  cases step with
  | schedule line =>
      rw [Session.step, perform]
      cases Cue.parse line with
      | ok cue => rfl
      | error error => rfl
  | ingest lines =>
      rw [step_ingest]
  | cancel id => rfl
  | failAfter | crash => exact absurd rfl hplain
  | advance | visible | finish => exact absurd rfl hquiet

/-- Unless a break was announced, a session goes on with its display. -/
theorem alive_step_of_isSound (halive : session.alive) (hsound : session.board.display.IsSound)
    (step : Step) : (session.step step).2.alive := by
  by_cases hcrash : step = .crash
  · rw [hcrash]
    exact halive
  · have hnow : session.IsSound := ⟨halive, hsound⟩
    exact (hnow.step hcrash).alive

/-- Firing triggers neither announces a break nor takes one back. -/
theorem isSound_actAll (session : Session Recorder) (triggers : List Trigger) :
    (session.actAll triggers).2.board.display.IsSound ↔ session.board.display.IsSound := by
  by_cases halive : session.alive
  · by_cases hsound : session.board.display.IsSound
    · have hkeeps : session.Keeps Recorder.IsSound := ⟨halive, hsound⟩
      exact iff_of_true (hkeeps.actAll Recorder.guards_isSound triggers).display hsound
    · rcases actAll_of_not_isSound halive hsound triggers with ⟨hend, _⟩ | ⟨_, hdisplay, _⟩
      · rw [hend]
      · rw [hdisplay]
  · rw [actAll_of_not_alive halive]

/-- A break is announced by a crash and stays announced until the failures are set anew. -/
theorem isSound_step (session : Session Recorder) (step : Step) :
    (session.step step).2.board.display.IsSound ↔
      (∃ limit, step = .failAfter limit) ∨ step ≠ .crash ∧ session.board.display.IsSound := by
  by_cases hrehearses : step.rehearses
  · cases step with
    | failAfter limit => exact iff_of_true (Recorder.IsSound.failAfter _ limit) (.inl ⟨limit, rfl⟩)
    | crash =>
        refine iff_of_false (fun hsound => hsound rfl) ?_
        rintro (⟨limit, heq⟩ | ⟨hne, _⟩)
        · cases heq
        · exact hne rfl
    | schedule | ingest | cancel | advance | visible | finish => cases hrehearses
  · have hboard : (session.step step).2.board.display.IsSound ↔ session.board.display.IsSound := by
      by_cases hfires : step.fires
      · rw [(step_eq_actAll session hfires).2.1]
        exact isSound_actAll (session.mapDisplay Recorder.rewind) _
      · rw [board_step_of_not_fires session hfires hrehearses]
        exact Iff.rfl
    rw [hboard, or_iff_right, and_iff_right]
    · rintro rfl
      exact hrehearses rfl
    · rintro ⟨limit, rfl⟩
      exact hrehearses rfl

/-- A step that breaks the display has fired a trigger that asks for a call, and before it
only triggers that do not. -/
theorem exists_of_not_alive_step (halive : session.alive) (hdead : ¬ (session.step step).2.alive) :
    ¬ session.board.display.IsSound ∧ (session.step step).1.calls = [] ∧
      ∃ idle trigger skipped, (session.step step).1.fired = idle ++ trigger :: skipped ∧
        (∀ other ∈ idle, other.action.calls session.board.frame session.board.shown = []) ∧
        trigger.action.calls session.board.frame session.board.shown ≠ [] ∧
        ((session.step step).1.events, (session.step step).2.board) =
          (session.mapDisplay Recorder.rewind).board.obeyAll
            ((idle ++ [trigger]).map Trigger.action) := by
  have hunsound : ¬ session.board.display.IsSound :=
    fun hsound => hdead (alive_step_of_isSound halive hsound step)
  have hfires : step.fires := by
    by_contra hquiet
    rw [(calls_step_of_not_fires session hquiet).2.2] at hdead
    exact hdead halive
  obtain ⟨hevents, hboard, hsame⟩ := step_eq_actAll session hfires
  have hrewound : (session.mapDisplay Recorder.rewind).alive := halive
  rw [hsame] at hdead
  rw [calls_step, hevents, hboard]
  rcases actAll_of_not_isSound hrewound hunsound (session.step step).1.fired with
    ⟨hend, _⟩ | ⟨_, hdisplay, hcut⟩
  · rw [hend] at hdead
    exact absurd hrewound hdead
  · rw [hdisplay]
    exact ⟨hunsound, rfl, hcut⟩

/-- A session stays alive unless its display is about to break and a trigger asks for a call. -/
theorem alive_step (session : Session Recorder) (step : Step) :
    (session.step step).2.alive ↔ session.alive ∧
      (¬ session.board.display.IsSound → ∀ trigger ∈ (session.step step).1.fired,
        trigger.action.calls session.board.frame session.board.shown = []) := by
  constructor
  · intro hnext
    have halive := alive_of_alive_step hnext
    refine ⟨halive, ?_⟩
    intro hunsound
    by_cases hfires : step.fires
    · have hrewound : (session.mapDisplay Recorder.rewind).alive := halive
      rw [(step_eq_actAll session hfires).2.2] at hnext
      rcases actAll_of_not_isSound hrewound hunsound (session.step step).1.fired with
        ⟨_, hidle⟩ | ⟨hdead, _⟩
      · exact hidle
      · exact absurd hnext hdead
    · rw [(step_of_not_fires session hfires).1]
      exact nofun
  · rintro ⟨halive, hidle⟩
    by_contra hdead
    obtain ⟨hunsound, _, idle, trigger, skipped, hfired, _, hcalls, _⟩ :=
      exists_of_not_alive_step halive hdead
    rw [hfired] at hidle
    exact hcalls (hidle hunsound trigger (by simp))

/-- After the display broke, no step makes a call. -/
theorem calls_step_of_not_alive (hdead : ¬ session.alive) (step : Step) :
    (session.step step).1.calls = [] := by
  by_cases hfires : step.fires
  · have hrewound : ¬ (session.mapDisplay Recorder.rewind).alive := hdead
    rw [calls_step, (step_eq_actAll session hfires).2.1, actAll_of_not_alive hrewound]
    rfl
  · exact (calls_step_of_not_fires session hfires).1

/-- A step without a board: no call is made, no text is seen, and the session ends without
its board. -/
structure IsSilent (step : Step) (answer : Answer) : Prop where
  calls : answer.calls = []
  visible : step.fires → step ≠ .finish → answer.result = .visible []
  lost : step = .finish → answer.result = .lost

theorem isSilent_step (hdead : ¬ (session.step step).2.alive)
    (hcalls : (session.step step).1.calls = []) : IsSilent step (session.step step).1 := by
  refine ⟨hcalls, ?_, ?_⟩
  · intro hfires hnot
    rw [result_of_fires hfires]
    cases step with
    | finish => exact absurd rfl hnot
    | schedule | ingest | cancel | advance | visible | failAfter | crash =>
        rw [Step.view, Session.visible, if_neg hdead]
        exact hnot
  · rintro rfl
    rw [result_of_fires rfl, Step.view, remaining, if_neg hdead]
    rfl

/-- After the display broke, all steps are silent. -/
theorem isSilent_run (hdead : ¬ session.alive) (script : List Step) :
    ∀ entry ∈ script.zip (session.run script), IsSilent entry.1 entry.2 := by
  induction script generalizing session with
  | nil => exact nofun
  | cons first rest ih =>
      have hnext : ¬ (session.step first).2.alive := by
        intro halive
        exact hdead (alive_of_alive_step halive)
      rw [run, List.zip_cons_cons]
      exact List.forall_mem_cons.mpr
        ⟨isSilent_step hnext (calls_step_of_not_alive hdead first), ih hnext⟩

/-- How failures are kept from the rest of a session that goes on with a step. -/
structure IsolatesFailures (session : Session Recorder) (step : Step) : Prop where
  /-- Scripts that differ in nothing but their rehearsals have the same books. -/
  books : ∀ script other : List Step,
    (script.filter fun step => !step.rehearses) = (other.filter fun step => !step.rehearses) →
    session.books script = session.books other
  /-- A crash announces a break, and setting the failures anew takes that back. -/
  announced : (session.step step).2.board.display.IsSound ↔
    (∃ limit, step = .failAfter limit) ∨ step ≠ .crash ∧ session.board.display.IsSound
  /-- The display breaks at the first call after a break was announced. -/
  alive : (session.step step).2.alive ↔ session.alive ∧
    (¬ session.board.display.IsSound → ∀ trigger ∈ (session.step step).1.fired,
      trigger.action.calls session.board.frame session.board.shown = [])
  /-- As long as it has not broken, every trigger that fires is obeyed. -/
  obeyed : step.fires → (session.step step).2.alive →
    ((session.step step).1.events, (session.step step).2.board) =
      (session.mapDisplay Recorder.rewind).board.obeyAll
        ((session.step step).1.fired.map Trigger.action)
  /-- In the step that breaks the display the triggers are obeyed up to the one that does. -/
  broken : session.alive → ¬ (session.step step).2.alive →
    ∃ idle trigger skipped, (session.step step).1.fired = idle ++ trigger :: skipped ∧
      (∀ other ∈ idle, other.action.calls session.board.frame session.board.shown = []) ∧
      trigger.action.calls session.board.frame session.board.shown ≠ [] ∧
      ((session.step step).1.events, (session.step step).2.board) =
        (session.mapDisplay Recorder.rewind).board.obeyAll
          ((idle ++ [trigger]).map Trigger.action)
  /-- From that step on all steps are silent. -/
  silent : ¬ (session.step step).2.alive → ∀ rest : List Step,
    ∀ entry ∈ (step :: rest).zip (session.run (step :: rest)), IsSilent entry.1 entry.2

/-- In whatever state a session is, failures of its display change nothing but what is drawn,
and only a broken display keeps commands from being obeyed. -/
theorem isolatesFailures (session : Session Recorder) (step : Step) :
    IsolatesFailures session step := by
  refine ⟨?_, isSound_step session step, alive_step session step, ?_, ?_, ?_⟩
  · intro script other hfilter
    have hagrees : session.Agrees session := ⟨rfl, rfl⟩
    rw [hagrees.books_filter script, hfilter, ← hagrees.books_filter]
  · intro hfires halive
    obtain ⟨hevents, hboard, hsame⟩ := step_eq_actAll session hfires
    rw [hsame] at halive
    rw [hevents, hboard]
    exact actAll_eq_obeyAll halive
  · intro halive hdead
    exact (exists_of_not_alive_step halive hdead).2.2
  · intro hdead rest
    have hcalls : (session.step step).1.calls = [] := by
      by_cases halive : session.alive
      · exact (exists_of_not_alive_step halive hdead).2.1
      · exact calls_step_of_not_alive halive step
    rw [run, List.zip_cons_cons]
    exact List.forall_mem_cons.mpr ⟨isSilent_step hdead hcalls, isSilent_run hdead rest⟩

end Session

end Captions
