import Captions.Display.Terminal
import Captions.Proofs.Board.Bounds

/-! # A terminal in place of a recorder

A terminal does the same for a board as a recorder: it refuses when the recorder refuses, and what
is written to it are the escape sequences for the calls that the recorder writes down. A terminal
never refuses to flush, but a drawing begins with moving the caret, which both refuse.
-/

namespace Captions

/-- The escape sequences for a call. Rows and columns are counted from one. -/
def Call.escapes : Call → String
  | move target =>
    "\x1b[" ++ toString (target.row.toNat + 1) ++ ";" ++ toString (target.column.toNat + 1) ++ "H"
  | paint text color =>
    "\x1b[38;5;" ++ toString color.paletteIndex ++ "m" ++ text ++ "\x1b[0m"
  | flush => ""

/-- In a viewport the count does not start over. -/
theorem Terminal.encode_eq_escapes {viewport : Viewport} {call : Call}
    (hwithin : call.IsWithin viewport) : encode call = call.escapes := by
  cases call with
  | move target =>
      obtain ⟨hcolumn, hrow⟩ := hwithin
      rw [encode, moveTo, toNat_add_one hrow, toNat_add_one hcolumn]
      simp [sequence, Call.escapes, String.append_assoc]
  | paint text color =>
      have hstart : "\x1b[38;5;" = "\x1b[" ++ "38;5;" := by decide
      have hend : "\x1b[0m" = "\x1b[" ++ "0m" := by decide
      rw [Call.escapes, hstart, hend]
      simp only [encode, foreground, resetColors, sequence, String.append_assoc]
  | flush => rfl

theorem Terminal.entrance_eq : entrance = "\x1b[?25l\x1b[2J\x1b[1;1H" := by decide

theorem Terminal.exit_eq : exit = "\x1b[0m\x1b[1;1H\x1b[?25h" := by decide

/-- A terminal with the output for the calls of a recorder that refuses when it does. -/
structure Terminal.Mirrors (terminal : Terminal) (recorder : Recorder) : Prop where
  out : terminal.out = String.join (recorder.calls.toList.map Call.escapes)
  health : recorder.health = if terminal.plugged then .working else .failingAfter 0

namespace Terminal.Mirrors

variable {terminal : Terminal} {recorder : Recorder}

theorem rewind (hmirrors : terminal.Mirrors recorder) :
    terminal.rewind.Mirrors recorder.rewind where
  out := rfl
  health := hmirrors.health

theorem failAfter (hmirrors : terminal.Mirrors recorder) {limit : Option Nat}
    (hlimit : limit = none ∨ limit = some 0) :
    Mirrors (Rehearsal.failAfter limit terminal) (Rehearsal.failAfter limit recorder) where
  out := hmirrors.out
  health := by
    rcases hlimit with rfl | rfl
    · rfl
    · rfl

/-- Calls that begin with a movement end alike on both. -/
theorem carryOut (hmirrors : terminal.Mirrors recorder) {viewport : Viewport} {target : Position}
    {rest : List Call} (hwithin : ∀ call ∈ .move target :: rest, call.IsWithin viewport) :
    (Captions.carryOut (.move target :: rest) terminal).1 =
        (Captions.carryOut (.move target :: rest) recorder).1 ∧
      (Captions.carryOut (.move target :: rest) terminal).2.Mirrors
        (Captions.carryOut (.move target :: rest) recorder).2 := by
  obtain ⟨out, plugged⟩ := terminal
  obtain ⟨written, health⟩ := recorder
  have hout : out = String.join (written.toList.map Call.escapes) := hmirrors.out
  cases plugged with
  | true =>
      have hhealth : health = .working := hmirrors.health
      have hescapes : (Call.move target :: rest).map encode =
          (Call.move target :: rest).map Call.escapes := by
        refine List.map_congr_left ?_
        intro call hcall
        exact encode_eq_escapes (hwithin call hcall)
      rw [hhealth, carryOut_plugged, Recorder.carryOut_working, hescapes, hout]
      exact ⟨rfl, by simp, rfl⟩
  | false =>
      have hhealth : health = .failingAfter 0 := hmirrors.health
      subst hhealth
      exact ⟨rfl, hmirrors⟩

end Terminal.Mirrors

namespace Board

/-- The step does not let the display refuse some calls after others that it takes. -/
def Step.IsAllOrNothing : Step → Prop
  | failAfter limit => limit = none ∨ limit = some 0
  | showText .. | hideText _ | isShown _ | drawBorder => True

/-- A drawing begins with moving the caret. -/
theorem exists_move_of_painting {frame : Frame} {shown : Shown} {request : Request}
    {painting : List Call} (hpainting : request.painting? frame shown = some painting) :
    ∃ target rest, painting = .move target :: rest := by
  cases request with
  | border =>
      cases hpainting
      exact ⟨_, _, rfl⟩
  | operation operation =>
      cases operation with
      | showText placement color text =>
          cases hpainting
          exact ⟨_, _, rfl⟩
      | hideText text =>
          obtain ⟨placement, _, rfl⟩ := Option.map_eq_some_iff.mp hpainting
          exact ⟨_, _, rfl⟩

/-- Boards with the same frame and the same record, one on a terminal and one on a recorder. -/
structure Mirrors (board : Board Terminal) (other : Board Recorder) : Prop where
  frame : board.frame = other.frame
  shown : board.shown = other.shown
  display : board.display.Mirrors other.display

namespace Mirrors

variable {viewport : Viewport} {board : Board Terminal} {other : Board Recorder}

/-- A request has the same outcome and the same log on both. -/
theorem fulfil (hmirrors : board.Mirrors other)
    (hframe : Frame.ofViewport? viewport = some other.frame) (request : Request) :
    (board.fulfil request).outcome = (other.fulfil request).outcome ∧
      (board.fulfil request).events = (other.fulfil request).events ∧
      (board.fulfil request).board.Mirrors (other.fulfil request).board := by
  rw [fulfil_eq, fulfil_eq, hmirrors.frame, hmirrors.shown]
  cases hpainting : request.painting? other.frame other.shown with
  | none => exact ⟨rfl, rfl, hmirrors⟩
  | some painting =>
      have hpaint := isWithin_of_mem_painting hframe hpainting
      obtain ⟨target, rest, rfl⟩ := exists_move_of_painting hpainting
      have hall : ∀ call ∈ Call.move target :: (rest ++ park), call.IsWithin viewport := by
        intro call hcall
        have hmem : call ∈ request.calls other.frame other.shown := by
          rw [Request.calls, hpainting]
          exact hcall
        exact isWithin_of_mem_calls hframe call hmem
      obtain ⟨haccepts, _⟩ := hmirrors.display.carryOut hpaint
      obtain ⟨hstatus, hdisplay⟩ := hmirrors.display.carryOut hall
      refine ⟨?_, rfl, ?_, ?_, ?_⟩
      · simp [status_draw, hstatus]
      · simp [frame_draw, hmirrors.frame]
      · simp [shown_draw, accepts, haccepts, hmirrors.shown]
      · simpa [display_draw] using hdisplay

/-- So has a step, if it lets the display refuse everything or nothing. -/
theorem step (hmirrors : board.Mirrors other)
    (hframe : Frame.ofViewport? viewport = some other.frame) {step : Step}
    (hstep : step.IsAllOrNothing) :
    (board.step step).1 = (other.step step).1 ∧
      (board.step step).2.Mirrors (other.step step).2 := by
  cases hrequest : step.request? with
  | some request =>
      obtain ⟨houtcome, hevents, hnext⟩ := hmirrors.fulfil hframe request
      rw [step_of_request hrequest, step_of_request hrequest]
      exact ⟨by simp [answer, houtcome, hevents, hnext.shown], hnext⟩
  | none =>
      cases step with
      | showText placement color text =>
          rw [Step.request?] at hrequest
          rw [Board.step, Board.step]
          cases hstyle : resolveStyle placement color with
          | ok style =>
              rw [hstyle] at hrequest
              cases hrequest
          | error error => exact ⟨by simp [reply, hmirrors.shown], hmirrors⟩
      | hideText | drawBorder => cases hrequest
      | isShown text => exact ⟨by simp [Board.step, reply, hmirrors.shown], hmirrors⟩
      | failAfter limit =>
          refine ⟨by simp [Board.step, reply, hmirrors.shown], hmirrors.frame, hmirrors.shown, ?_⟩
          exact hmirrors.display.failAfter hstep

end Mirrors

section Runs

variable {δ : Type} [Rehearsal δ]

/-- Carries out the steps of a script. Each answer comes with the display after the step, which
has forgotten what was there before it. -/
def run (rewind : δ → δ) (board : Board δ) : List Step → List (Answer × δ) × Board δ
  | [] => ([], board)
  | first :: rest =>
    let done := (board.mapDisplay rewind).step first
    let others := done.2.run rewind rest
    ((done.1, done.2.display) :: others.1, others.2)

theorem frame_step (board : Board δ) (step : Step) : (board.step step).2.frame = board.frame := by
  cases step with
  | showText placement color text =>
      rw [Board.step]
      split
      next => exact frame_operate board (.showText _ _ text)
      next => rfl
  | hideText text => exact frame_operate board (.hideText text)
  | drawBorder => exact frame_fulfil board .border
  | isShown | failAfter => rfl

end Runs

/-- Over a whole script the answers are the same, and the output of each step is that for its
calls. -/
theorem Mirrors.run {viewport : Viewport} {board : Board Terminal} {other : Board Recorder}
    (hmirrors : (board.mapDisplay Terminal.rewind).Mirrors (other.mapDisplay Recorder.rewind))
    (hframe : Frame.ofViewport? viewport = some other.frame) {script : List Step}
    (hscript : ∀ step ∈ script, step.IsAllOrNothing) :
    (board.run Terminal.rewind script).1.map (fun done => (done.1, done.2.out)) =
        (other.run Recorder.rewind script).1.map
          (fun done => (done.1, String.join (done.2.calls.toList.map Call.escapes))) ∧
      ((board.run Terminal.rewind script).2.mapDisplay Terminal.rewind).Mirrors
        ((other.run Recorder.rewind script).2.mapDisplay Recorder.rewind) := by
  induction script generalizing board other with
  | nil => exact ⟨rfl, hmirrors⟩
  | cons first rest ih =>
      obtain ⟨hfirst, hrest⟩ := List.forall_mem_cons.mp hscript
      obtain ⟨hanswer, hnext⟩ := hmirrors.step hframe hfirst
      have hkept : Frame.ofViewport? viewport =
          some ((other.mapDisplay Recorder.rewind).step first).2.frame := by
        rw [frame_step]
        exact hframe
      obtain ⟨hothers, hlast⟩ := ih ⟨hnext.frame, hnext.shown, hnext.display.rewind⟩ hkept hrest
      refine ⟨?_, hlast⟩
      simp [Board.run, hanswer, hnext.display.out, hothers]

/-- A board on a terminal that has been entered does what it would do on a recorder: it has the
same answers, it writes the escape sequences for the calls, and it can be left unless the terminal
takes no output in the end. -/
theorem terminal_mirrors_recorder {viewport : Viewport} {frame : Frame}
    (hframe : Frame.ofViewport? viewport = some frame) {script : List Step}
    (hscript : ∀ step ∈ script, step.IsAllOrNothing) :
    let entered := ({} : Terminal).enter
    let onTerminal := (Board.mk frame entered.2 {}).run Terminal.rewind script
    let onRecorder := (Board.mk frame ({} : Recorder) {}).run Recorder.rewind script
    entered = (.done, ⟨"\x1b[?25l\x1b[2J\x1b[1;1H", true⟩) ∧
      onTerminal.1.map (fun done => (done.1, done.2.out)) =
        onRecorder.1.map
          (fun done => (done.1, String.join (done.2.calls.toList.map Call.escapes))) ∧
      onTerminal.2.display.rewind.leave =
        if onRecorder.2.display.health = .working then
          (.done, ⟨"\x1b[0m\x1b[1;1H\x1b[?25h", true⟩)
        else (.refused .unplugged, ⟨"", false⟩) := by
  intro entered onTerminal onRecorder
  have hstart : ((Board.mk frame entered.2 {}).mapDisplay Terminal.rewind).Mirrors
      ((Board.mk frame ({} : Recorder) {}).mapDisplay Recorder.rewind) :=
    ⟨rfl, rfl, rfl, rfl⟩
  obtain ⟨hanswers, hlast⟩ := hstart.run hframe hscript
  have hentered : entered = (.done, ⟨"\x1b[?25l\x1b[2J\x1b[1;1H", true⟩) := by
    simp [entered, Terminal.enter, Terminal.write, Terminal.entrance_eq]
  refine ⟨hentered, hanswers, ?_⟩
  have hhealth : onRecorder.2.display.health =
      if onTerminal.2.display.plugged then .working else .failingAfter 0 := hlast.display.health
  rw [hhealth]
  generalize onTerminal.2.display = terminal
  obtain ⟨out, plugged⟩ := terminal
  cases plugged with
  | true => simp [Terminal.leave, Terminal.write, Terminal.rewind, Terminal.exit_eq]
  | false => rfl

/-- A text that cannot be erased while the terminal is unplugged is erased later. -/
theorem terminal_mirrors_recorder_unplugged :
    Frame.ofViewport? ⟨8, 4⟩ = some ⟨⟨8, 4⟩, 2, 1, 5, 2⟩ ∧
      ((Board.mk ⟨⟨8, 4⟩, 2, 1, 5, 2⟩ ({} : Terminal).enter.2 {}).run Terminal.rewind
        [.showText (some "Top") (some "Red") "Hi", .failAfter (some 0), .hideText "Hi",
          .drawBorder, .failAfter none, .hideText "Hi", .isShown "Hi"]).1.map
          (fun done => done.2.out) =
        ["\x1b[2;4H\x1b[38;5;9mHi\x1b[0m\x1b[1;1H", "", "", "", "",
          "\x1b[2;4H\x1b[38;5;15m  \x1b[0m\x1b[1;1H", ""] := by
  have hframe : Frame.ofViewport? ⟨8, 4⟩ = some ⟨⟨8, 4⟩, 2, 1, 5, 2⟩ := by decide
  have hscript : ∀ step ∈ [.showText (some "Top") (some "Red") "Hi", .failAfter (some 0),
      .hideText "Hi", .drawBorder, .failAfter none, .hideText "Hi", .isShown "Hi"],
      Step.IsAllOrNothing step := by
    simp [Step.IsAllOrNothing]
  obtain ⟨_, hanswers, _⟩ := terminal_mirrors_recorder hframe hscript
  have houts := congrArg (List.map Prod.snd) hanswers
  rw [List.map_map, List.map_map] at houts
  refine ⟨hframe, houts.trans ?_⟩
  decide +kernel

end Board

end Captions
