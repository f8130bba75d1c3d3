import Captions.Proofs.Session.Past

/-! # Sessions without a crash

A property guards displays if no call breaks a display that has it and every call leaves
it as it is. A session on such a display stays alive, whatever calls are refused. A
recorder is guarded as long as no break was announced.
-/

namespace Captions

section Guards

variable {δ : Type} [Display δ] {P : δ → Prop}

/-- No call breaks a display with the property, and the property lasts. -/
def Display.Guards (P : δ → Prop) : Prop :=
  ∀ (display : δ) (call : Call), P display →
    (perform call display).1 ≠ .broken ∧ P (perform call display).2

theorem Display.Guards.carryOut (hguards : Display.Guards P) {display : δ} (hdisplay : P display)
    (calls : List Call) :
    (carryOut calls display).1 ≠ .broken ∧ P (carryOut calls display).2 := by
  induction calls generalizing display with
  | nil => exact ⟨nofun, hdisplay⟩
  | cons call rest ih =>
      have hfirst := hguards display call hdisplay
      rw [Captions.carryOut]
      split
      next next hcall =>
        rw [hcall] at hfirst
        exact ih hfirst.2
      next => exact hfirst

theorem Display.Guards.draw (hguards : Display.Guards P) {board : Board δ}
    (hdisplay : P board.display) (calls : List Call) (change : Shown → Shown) :
    (board.draw calls change).1 ≠ .broken ∧ P (board.draw calls change).2.display := by
  have hcalls := hguards.carryOut hdisplay calls
  unfold Board.draw
  split
  next display hdone =>
    rw [hdone] at hcalls
    exact hguards.carryOut hcalls.2 Board.park
  next status display _ hstopped =>
    rw [hstopped] at hcalls
    exact hcalls

namespace Session

/-- The display of a session has not broken and has the property. -/
structure Keeps (P : δ → Prop) (session : Session δ) : Prop where
  alive : session.alive
  display : P session.board.display

namespace Keeps

variable {session : Session δ}

omit [Display δ] in
theorem settle (hkeeps : session.Keeps P) (report : DrawError → Event) {drawing : Drawing δ}
    (houtcome : drawing.outcome ≠ .broken) (hdisplay : P drawing.board.display) :
    (session.settle report drawing).2.Keeps P := by
  unfold Session.settle
  split
  next => exact ⟨hkeeps.alive, hdisplay⟩
  next => exact ⟨hkeeps.alive, hdisplay⟩
  next hbroken => exact absurd hbroken houtcome

theorem settle_draw (hkeeps : session.Keeps P) (hguards : Display.Guards P)
    (report : DrawError → Event) (events : List Event) (calls : List Call)
    (change : Shown → Shown) :
    (session.settle report ⟨.ofStatus (session.board.draw calls change).1, events,
      (session.board.draw calls change).2⟩).2.Keeps P := by
  obtain ⟨hstatus, hdisplay⟩ := hguards.draw hkeeps.display calls change
  refine hkeeps.settle report ?_ hdisplay
  intro hbroken
  cases hdraw : (session.board.draw calls change).1 with
  | broken => exact hstatus hdraw
  | done | refused => rw [hdraw] at hbroken; cases hbroken

theorem act (hkeeps : session.Keeps P) (hguards : Display.Guards P) (action : Action) :
    (session.act action).2.Keeps P := by
  cases action with
  | showCue cue =>
      rw [Session.act]
      split
      next color _ => exact hkeeps.settle_draw hguards _ _ _ _
      next => exact hkeeps
  | hideText text =>
      rw [Session.act, Board.hideText]
      split
      next =>
        refine hkeeps.settle _ ?_ hkeeps.display
        intro hbroken
        cases hbroken
      next placement _ => exact hkeeps.settle_draw hguards _ _ _ _

theorem actAll (hkeeps : session.Keeps P) (hguards : Display.Guards P)
    (triggers : List Trigger) : (session.actAll triggers).2.Keeps P := by
  induction triggers generalizing session with
  | nil => exact hkeeps
  | cons trigger rest ih =>
      rw [Session.actAll, if_pos hkeeps.alive]
      exact ih (hkeeps.act hguards trigger.action)

theorem advance (hkeeps : session.Keeps P) (hguards : Display.Guards P) (time : Nat) :
    (session.advance time).session.Keeps P := by
  refine Keeps.actAll ?_ hguards _
  exact ⟨hkeeps.alive, hkeeps.display⟩

end Keeps

end Session

end Guards

namespace Session

/-- What guards a recorder lasts in every step that does not set its health. -/
theorem Keeps.step {P : Recorder → Prop} {session : Session Recorder}
    (hkeeps : session.Keeps P) (hguards : Display.Guards P)
    (hrewind : ∀ recorder : Recorder, P recorder → P recorder.rewind) {step : Step}
    (hcrash : step ≠ .crash) (hfail : ∀ limit, step ≠ .failAfter limit) :
    (session.step step).2.Keeps P := by
  have hrewound : (session.mapDisplay Recorder.rewind).Keeps P :=
    ⟨hkeeps.alive, hrewind _ hkeeps.display⟩
  cases step with
  | schedule line =>
      rw [Session.step, perform]
      split
      next => exact ⟨hrewound.alive, hrewound.display⟩
      next => exact hrewound
  | ingest lines =>
      rw [step_ingest]
      exact ⟨hrewound.alive, hrewound.display⟩
  | cancel id => exact ⟨hrewound.alive, hrewound.display⟩
  | advance time => exact hrewound.advance hguards time
  | visible => exact hrewound.advance hguards session.clock
  | failAfter limit => exact absurd rfl (hfail limit)
  | crash => exact absurd rfl hcrash
  | finish => exact hrewound.advance hguards session.agenda.horizon

end Session

namespace Recorder

/-- No break was announced. -/
def IsSound (recorder : Recorder) : Prop :=
  recorder.health ≠ .breaking

theorem guards_isSound : Display.Guards IsSound := by
  intro recorder call hsound
  change (recorder.perform call).1 ≠ .broken ∧ (recorder.perform call).2.IsSound
  unfold Recorder.perform
  split
  next hhealth => exact ⟨nofun, hsound⟩
  next => exact ⟨nofun, hsound⟩
  next => exact ⟨nofun, nofun⟩
  next hhealth => exact absurd hhealth hsound

theorem IsSound.failAfter (recorder : Recorder) (limit : Option Nat) :
    (recorder.failAfter limit).IsSound := by
  cases limit with
  | none => exact nofun
  | some left => exact nofun

end Recorder

namespace Session

/-- The display of a session has not broken and will not break. -/
structure IsSound (session : Session Recorder) : Prop where
  alive : session.alive
  display : session.board.display.IsSound

/-- Only a crash can take the board away from a session. -/
theorem IsSound.step {session : Session Recorder} (hsound : session.IsSound) {step : Step}
    (hcrash : step ≠ .crash) : (session.step step).2.IsSound := by
  by_cases hfail : ∃ limit, step = .failAfter limit
  · obtain ⟨limit, rfl⟩ := hfail
    exact ⟨hsound.alive, Recorder.IsSound.failAfter _ limit⟩
  · have hkeeps : session.Keeps Recorder.IsSound := ⟨hsound.alive, hsound.display⟩
    obtain ⟨halive, hdisplay⟩ :=
      hkeeps.step Recorder.guards_isSound (fun _ h => h) hcrash (not_exists.mp hfail)
    exact ⟨halive, hdisplay⟩

end Session

end Captions
