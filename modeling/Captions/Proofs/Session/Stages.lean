import Captions.Proofs.Agenda.Stages
import Captions.Proofs.Session.Accounting
import Captions.Proofs.Session.Leftover
import Captions.Proofs.Session.Pictures

/-! # Going forward in stages

The clock of a session may stop on its way to a time. What fires is the same, and the display is
asked for the same calls in the same order: the second stage finds it as the first one left it,
with as many calls to go until it refuses. The calls written down before have no say in that.
-/

namespace Captions

section Ignoring

variable {δ : Type} [Display δ] {f : δ → δ}

/-- A change of a display that no call sees or undoes. -/
def Display.Ignores (f : δ → δ) : Prop :=
  ∀ (call : Call) (display : δ),
    perform call (f display) = ((perform call display).1, f (perform call display).2)

theorem carryOut_of_ignores (hignores : Display.Ignores f) (calls : List Call) (display : δ) :
    carryOut calls (f display) = ((carryOut calls display).1, f (carryOut calls display).2) := by
  induction calls generalizing display with
  | nil => rfl
  | cons call rest ih =>
      rw [carryOut, carryOut, hignores]
      obtain ⟨status, next⟩ := Display.perform call display
      cases status with
      | done => exact ih next
      | refused | broken => rfl

namespace Board

theorem draw_mapDisplay (hignores : Display.Ignores f) (calls : List Call)
    (change : Shown → Shown) (board : Board δ) :
    (board.mapDisplay f).draw calls change =
      ((board.draw calls change).1, (board.draw calls change).2.mapDisplay f) := by
  simp only [draw, mapDisplay, carryOut_of_ignores hignores]
  obtain ⟨status, display⟩ := carryOut calls board.display
  cases status with
  | done => simp [carryOut_of_ignores hignores]
  | refused | broken => rfl

end Board

namespace Session

variable {session : Session δ}

omit [Display δ] in
theorem settle_mapDisplay (report : DrawError → Event) (drawing : Drawing δ)
    (session : Session δ) :
    (session.mapDisplay f).settle report { drawing with board := drawing.board.mapDisplay f } =
      ((session.settle report drawing).1, (session.settle report drawing).2.mapDisplay f) := by
  obtain ⟨outcome, events, board⟩ := drawing
  cases outcome with
  | done | refused | broken => rfl

theorem act_mapDisplay (hignores : Display.Ignores f) (action : Action) (session : Session δ) :
    (session.mapDisplay f).act action =
      ((session.act action).1, (session.act action).2.mapDisplay f) := by
  have hboard : (session.mapDisplay f).board = session.board.mapDisplay f := rfl
  cases action with
  | showCue cue =>
      rw [act, act]
      cases Color.resolve cue.color with
      | error error => rfl
      | ok color =>
          simp only [← settle_mapDisplay, hboard, Board.showText, Board.draw_mapDisplay hignores]
          rfl
  | hideText text =>
      have hshown : (session.board.mapDisplay f).shown = session.board.shown := rfl
      rw [act, act, ← settle_mapDisplay, hboard, Board.hideText, Board.hideText, hshown]
      cases session.board.shown.find? text with
      | none => rfl
      | some placement => simp only [Board.draw_mapDisplay hignores]; rfl

theorem actAll_mapDisplay (hignores : Display.Ignores f) (triggers : List Trigger)
    (session : Session δ) :
    (session.mapDisplay f).actAll triggers =
      ((session.actAll triggers).1, (session.actAll triggers).2.mapDisplay f) := by
  induction triggers generalizing session with
  | nil => rfl
  | cons trigger rest ih =>
      have halive : (session.mapDisplay f).alive = session.alive := rfl
      rw [actAll, actAll, halive]
      split
      next => simp only [act_mapDisplay hignores, ih]
      next => rfl

/-- A session that goes forward neither sees nor undoes what its display ignores. -/
theorem advance_mapDisplay (hignores : Display.Ignores f) (time : Nat) (session : Session δ) :
    (session.mapDisplay f).advance time =
      { session.advance time with session := (session.advance time).session.mapDisplay f } := by
  have hacted := actAll_mapDisplay hignores
    (session.agenda.fire session.clock (max session.clock time)).1
    { session with
      clock := max session.clock time
      agenda := (session.agenda.fire session.clock (max session.clock time)).2 }
  simp only [advance]
  exact congrArg (fun acted => Turn.mk _ acted.1 acted.2) hacted

theorem advance_max_clock (session : Session δ) (time : Nat) :
    session.advance (max session.clock time) = session.advance time := by
  simp only [advance, Nat.max_eq_right (Nat.le_max_left session.clock time)]

/-- To play a session out does what it does to move the clock to the last trigger; only the clock
goes on from there. -/
theorem playOut_eq (session : Session δ) :
    session.playOut =
      { session.advance session.agenda.latest with
        session :=
          { (session.advance session.agenda.latest).session with
            clock := max session.clock session.agenda.horizon } } := by
  have hlatest : session.agenda.latest ≤ max session.clock session.agenda.latest :=
    Nat.le_max_right _ _
  have hhorizon : session.agenda.latest ≤ max session.clock session.agenda.horizon :=
    Nat.le_trans (Nat.le_max_left _ _) (Nat.le_max_right _ _)
  simp only [playOut, advance, Agenda.fire_of_latest_le hlatest,
    Agenda.fire_of_latest_le hhorizon, actAll_with]

/-- A stop on the way to a time changes neither what fires and is logged in all, nor the
session in the end. -/
theorem advance_advance {settled recent : List Cue} {fired : List Trigger}
    (hledger : session.agenda.Ledger settled recent fired session.clock) {middle target : Nat}
    (hmiddle : session.clock ≤ middle) (htarget : middle ≤ target) :
    session.advance target =
      { fired := (session.advance middle).fired ++
          ((session.advance middle).session.advance target).fired
        events := (session.advance middle).events ++
          ((session.advance middle).session.advance target).events
        session := ((session.advance middle).session.advance target).session } := by
  obtain ⟨hfired, hagenda⟩ := hledger.fire_fire htarget
  simp only [advance, actAll_with, Nat.max_eq_right hmiddle, Nat.max_eq_right htarget,
    Nat.max_eq_right (Nat.le_trans hmiddle htarget), hfired, hagenda, actAll_append]

end Session

end Ignoring

namespace Recorder

/-- Puts calls in front of those that are written down. -/
def resume (written : Array Call) (recorder : Recorder) : Recorder :=
  { recorder with calls := written ++ recorder.calls }

theorem ignores_resume (written : Array Call) : Display.Ignores (resume written) := by
  rintro call ⟨calls, health⟩
  cases health with
  | working => simp [Display.perform, perform, resume]
  | failingAfter left => cases left <;> simp [Display.perform, perform, resume]
  | breaking => rfl

@[simp] theorem resume_rewind (recorder : Recorder) :
    recorder.rewind.resume recorder.calls = recorder := by
  simp [resume, rewind]

end Recorder

namespace Session

variable {session other : Session Recorder}

/-- The answers to the steps to come do not depend on the calls that are written down. -/
theorem run_eq_of_rewind
    (hrewound : session.mapDisplay Recorder.rewind = other.mapDisplay Recorder.rewind)
    (script : List Step) : session.run script = other.run script := by
  cases script with
  | nil => rfl
  | cons first rest => simp [run, step, hrewound]

/-- Two turns as if they were one, where the second began with nothing written down. -/
def together (first second : Turn Recorder) : Turn Recorder where
  fired := first.fired ++ second.fired
  events := first.events ++ second.events
  session := second.session.mapDisplay (Recorder.resume first.session.board.display.calls)

/-- The answer to two steps as if they were one: what fired, was called and was logged in both,
and the result of the second. -/
def Answer.followedBy (early late : Answer) : Answer :=
  ⟨late.result, early.fired ++ late.fired, early.calls ++ late.calls, early.events ++ late.events⟩

theorem answer_together (before result : Result) (first second : Turn Recorder) :
    (answer result (together first second)).1 =
      (answer before first).1.followedBy (answer result second).1 := by
  simp [answer, Answer.followedBy, together, mapDisplay, Recorder.resume]

theorem run_together (result : Result) (first second : Turn Recorder) (rest : List Step) :
    (answer result (together first second)).2.run rest = (answer result second).2.run rest := by
  refine run_eq_of_rewind ?_ rest
  rfl

/-- A step makes no difference to the one after it: both together have the answer of the second
alone, and the steps to come are answered alike. -/
structure Absorbs (session : Session Recorder) (early late : Step) : Prop where
  answer : (session.step early).1.followedBy ((session.step early).2.step late).1 =
    (session.step late).1
  later : ∀ rest, ((session.step early).2.step late).2.run rest = (session.step late).2.run rest

/-- A step that fires goes forward to its target. -/
theorem step_eq_advance (session : Session Recorder) {step : Step} (hfires : step.fires) :
    session.step step =
      answer
        (step.view ((session.mapDisplay Recorder.rewind).advance (step.target session)).session)
        ((session.mapDisplay Recorder.rewind).advance (step.target session)) := by
  have hmax : ∀ time, (session.mapDisplay Recorder.rewind).advance (max session.clock time) =
      (session.mapDisplay Recorder.rewind).advance time := advance_max_clock _
  cases step with
  | advance time => rw [Step.target, hmax]; rfl
  | visible => rfl
  | finish => rw [Step.target, hmax]; rfl
  | schedule | ingest | cancel | failAfter | crash => cases hfires

theorem Step.view_mapDisplay (f : Recorder → Recorder) (step : Step) :
    step.view (session.mapDisplay f) = step.view session := by
  cases step <;> rfl

section Stages

variable {settled recent : List Cue} {fired : List Trigger}

/-- A second stage is the same without the calls of the first, and puts its own behind them. -/
theorem advance_eq_together (hledger : session.agenda.Ledger settled recent fired session.clock)
    {middle target : Nat} (hmiddle : session.clock ≤ middle) (htarget : middle ≤ target) :
    session.advance target = together (session.advance middle)
      (((session.advance middle).session.mapDisplay Recorder.rewind).advance target) := by
  rw [advance_advance hledger hmiddle htarget]
  generalize session.advance middle = first
  have hresumed : (first.session.mapDisplay Recorder.rewind).mapDisplay
      (Recorder.resume first.session.board.display.calls) = first.session := by
    simp [mapDisplay]
  have hsecond := advance_mapDisplay
    (Recorder.ignores_resume first.session.board.display.calls) target
    (first.session.mapDisplay Recorder.rewind)
  rw [hresumed] at hsecond
  rw [hsecond, together]

/-- A step makes no difference to the one after it if that goes forward to the same time
without it. -/
theorem absorbs_of_target (hledger : session.agenda.Ledger settled recent fired session.clock)
    {early late : Step} (hearly : early.fires) (hlate : late.fires)
    (htarget : late.target (session.step early).2 = late.target session) :
    session.Absorbs early late := by
  have hle : early.target session ≤ late.target session := by
    rw [← htarget, ← (step_of_fires session hearly).2.2]
    exact le_target _ late
  have hrewound : (session.mapDisplay Recorder.rewind).agenda.Ledger settled recent fired
      (session.mapDisplay Recorder.rewind).clock := hledger
  have hwhole := advance_eq_together hrewound (le_target session early) hle
  have hfirst := step_eq_advance session hearly
  have hsecond := step_eq_advance (session.step early).2 hlate
  rw [htarget, hfirst] at hsecond
  have htogether := step_eq_advance session hlate
  rw [hwhole] at htogether
  refine ⟨?_, ?_⟩
  · rw [htogether, hfirst, hsecond, together, Step.view_mapDisplay]
    exact (answer_together _ _ _ _).symm
  · intro rest
    rw [htogether, hfirst, hsecond, run_together]
    rfl

end Stages

/-- The clock may stop on its way to a time, and what is due may fire before the clock goes on or
the session finishes: the calls, the log and the final answer of both steps together are those of
the second alone, and every later step has the same answer. -/
theorem clock_steps_compose (board : Board Recorder) (past : List Step) :
    (∀ early late, early ≤ late →
        ((start board).play past).Absorbs (.advance early) (.advance late)) ∧
      (∀ time, ((start board).play past).Absorbs .visible (.advance time)) ∧
      ((start board).play past).Absorbs .visible .finish := by
  have hledger := (follows_play board past).ledger
  generalize (start board).play past = session at hledger ⊢
  refine ⟨?_, ?_, ?_⟩
  · intro early late hle
    refine absorbs_of_target hledger rfl rfl ?_
    have hearly : (Step.advance early).fires := rfl
    have hclock := (step_of_fires session hearly).2.2
    rw [Step.target, Step.target, hclock, Step.target, Nat.max_assoc, Nat.max_eq_right hle]
  · intro time
    refine absorbs_of_target hledger rfl rfl ?_
    have hvisible : Step.visible.fires := rfl
    have hclock := (step_of_fires session hvisible).2.2
    rw [Step.target, Step.target, hclock]
    rfl
  · refine absorbs_of_target hledger rfl rfl ?_
    have hvisible : Step.visible.fires := rfl
    obtain ⟨_, hagenda, hclock⟩ := step_of_fires session hvisible
    rw [Step.target, Step.target, hagenda, hclock]
    exact Agenda.max_horizon_fire session.clock session.agenda

/-- The display refuses the last of the calls, which are split between the two stages. -/
theorem clock_steps_compose_refused :
    2500 ≤ 4500 ∧
      ((opening ⟨⟨80, 24⟩, 20, 6, 59, 17⟩).play
        [.schedule "00:01 00:03 Hi", .advance 2000, .schedule "00:01 00:04 Ho [Top, Red]",
          .failAfter (some 7)]).Absorbs (.advance 2500) (.advance 4500) ∧
      ((opening ⟨⟨80, 24⟩, 20, 6, 59, 17⟩).run
        [.schedule "00:01 00:03 Hi", .advance 2000, .schedule "00:01 00:04 Ho [Top, Red]",
          .failAfter (some 7), .advance 2500, .advance 4500]).map
        (fun answer => (answer.fired.map Trigger.due, answer.calls.length)) =
          [([], 0), ([1000], 4), ([], 0), ([], 0), ([1000], 4), ([3000, 4000], 3)] := by
  have hle : 2500 ≤ 4500 := by decide
  refine ⟨hle, ?_, by decide +kernel⟩
  exact (clock_steps_compose ⟨⟨⟨80, 24⟩, 20, 6, 59, 17⟩, {}, {}⟩
    [.schedule "00:01 00:03 Hi", .advance 2000, .schedule "00:01 00:04 Ho [Top, Red]",
      .failAfter (some 7)]).1 2500 4500 hle

end Session

end Captions
