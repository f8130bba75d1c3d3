import Captions.Proofs.Board.Requests

/-! # Boards on a display that fails

A display that refuses every call after the first few cuts the calls of a request short. The
request is refused if one of its calls is left out, but the record follows the picture: it changes
if what was to be painted has been painted, even if the caret was not parked any more.
-/

namespace Captions

/-- A recorder that is about to fail writes down as many calls as it takes. -/
theorem Recorder.carryOut_failingAfter (calls : List Call) (written : Array Call) (limit : Nat) :
    carryOut calls (⟨written, .failingAfter limit⟩ : Recorder) =
      (if calls.length ≤ limit then .done else .refused .unplugged,
        ⟨written ++ calls.take limit, .failingAfter (limit - calls.length)⟩) := by
  induction calls generalizing written limit with
  | nil => simp
  | cons call rest ih =>
      cases limit with
      | zero => simp [carryOut, Display.perform, perform]
      | succ left =>
          have hcall : Display.perform call (⟨written, .failingAfter (left + 1)⟩ : Recorder) =
              (.done, ⟨written.push call, .failingAfter left⟩) := rfl
          rw [carryOut_cons_of_done hcall, ih]
          simp

namespace Board

/-- Sets how many calls the display of a board takes before it refuses all others. -/
def failAfter {δ : Type} [Rehearsal δ] (limit : Option Nat) (board : Board δ) : Board δ :=
  board.mapDisplay (Rehearsal.failAfter limit)

@[simp] theorem frame_failAfter {δ : Type} [Rehearsal δ] (limit : Option Nat) (board : Board δ) :
    (board.failAfter limit).frame = board.frame := rfl

@[simp] theorem shown_failAfter {δ : Type} [Rehearsal δ] (limit : Option Nat) (board : Board δ) :
    (board.failAfter limit).shown = board.shown := rfl

/-- The calls that were carried out begin with all that a request is to paint. -/
def HasPainted (board : Board Recorder) (request : Request) (carriedOut : List Call) : Prop :=
  ∃ painting ∈ request.painting? board.frame board.shown, painting <+: carriedOut

/-- How a request goes on a display that refuses every call after the first `limit`, next to how
it goes on one that refuses none. -/
structure StopsAfter (board : Board Recorder) (request : Request) (limit : Nat) : Prop where
  unlimited : ((board.failAfter none).fulfil request).board.display.calls =
    board.display.calls ++ request.calls board.frame board.shown
  done : ∃ changed, ((board.failAfter none).fulfil request).outcome = .done changed
  limited : ((board.failAfter (some limit)).fulfil request).board.display.calls =
    board.display.calls ++ (request.calls board.frame board.shown).take limit
  outcome : ((board.failAfter (some limit)).fulfil request).outcome =
    if limit < (request.calls board.frame board.shown).length then .refused .unplugged
    else ((board.failAfter none).fulfil request).outcome
  painted : board.HasPainted request ((request.calls board.frame board.shown).take limit) →
    ((board.failAfter (some limit)).fulfil request).board.shown = request.mark.apply board.shown
  unpainted : ¬ board.HasPainted request ((request.calls board.frame board.shown).take limit) →
    ((board.failAfter (some limit)).fulfil request).board.shown = board.shown
  border : request = .border →
    ((board.failAfter (some limit)).fulfil request).board.shown = board.shown
  idle : ∀ text, request = .operation (.hideText text) → board.shown.find? text = none →
    (board.failAfter (some limit)).fulfil request =
      ⟨.done false, [.nothingToHide text], board.failAfter (some limit)⟩

section Limited

variable {board : Board Recorder} {request : Request} {limit : Nat}

theorem carryOut_unlimited (calls : List Call) (board : Board Recorder) :
    carryOut calls (board.failAfter none).display =
      (.done, ⟨board.display.calls ++ calls, .working⟩) :=
  Recorder.carryOut_working calls board.display.calls

theorem carryOut_limited (calls : List Call) (limit : Nat) (board : Board Recorder) :
    carryOut calls (board.failAfter (some limit)).display =
      (if calls.length ≤ limit then .done else .refused .unplugged,
        ⟨board.display.calls ++ calls.take limit, .failingAfter (limit - calls.length)⟩) :=
  Recorder.carryOut_failingAfter calls board.display.calls limit

theorem outcome_unlimited (board : Board Recorder) (request : Request) :
    ((board.failAfter none).fulfil request).outcome =
      .done (request.painting? board.frame board.shown).isSome := by
  rw [outcome_fulfil, carryOut_unlimited, frame_failAfter, shown_failAfter]
  cases request.painting? board.frame board.shown with
  | none => rfl
  | some painting => rfl

/-- A request is refused if one of its calls is left out. -/
theorem outcome_limited (board : Board Recorder) (request : Request) (limit : Nat) :
    ((board.failAfter (some limit)).fulfil request).outcome =
      if limit < (request.calls board.frame board.shown).length then .refused .unplugged
      else .done (request.painting? board.frame board.shown).isSome := by
  rw [outcome_fulfil, carryOut_limited, frame_failAfter, shown_failAfter, Request.calls]
  cases request.painting? board.frame board.shown with
  | none => rfl
  | some painting =>
      by_cases hlimit : limit < (painting ++ park).length
      · simp only [if_pos hlimit, if_neg (Nat.not_le.mpr hlimit)]
        rfl
      · simp only [if_neg hlimit, if_pos (Nat.not_lt.mp hlimit)]
        rfl

theorem accepts_limited {calls : List Call} :
    (board.failAfter (some limit)).accepts calls ↔ calls.length ≤ limit := by
  simp [accepts, carryOut_limited]

/-- What is to be painted is painted if the display takes as many calls. -/
theorem hasPainted_take_iff :
    board.HasPainted request ((request.calls board.frame board.shown).take limit) ↔
      ∃ painting ∈ request.painting? board.frame board.shown, painting.length ≤ limit := by
  rw [HasPainted, Request.calls]
  cases request.painting? board.frame board.shown with
  | none => simp
  | some painting => simp [List.prefix_take_iff]

theorem shown_limited_of_hasPainted
    (hpainted : board.HasPainted request ((request.calls board.frame board.shown).take limit)) :
    ((board.failAfter (some limit)).fulfil request).board.shown =
      request.mark.apply board.shown := by
  obtain ⟨painting, hpainting, hle⟩ := hasPainted_take_iff.mp hpainted
  rw [shown_fulfil, mark, frame_failAfter, shown_failAfter, hpainting]
  simp [accepts_limited, hle]

theorem shown_limited_of_not_hasPainted
    (hpainted : ¬ board.HasPainted request ((request.calls board.frame board.shown).take limit)) :
    ((board.failAfter (some limit)).fulfil request).board.shown = board.shown := by
  rw [hasPainted_take_iff] at hpainted
  rw [shown_fulfil, mark, frame_failAfter, shown_failAfter]
  cases hpainting : request.painting? board.frame board.shown with
  | none => rfl
  | some painting =>
      have hlimit : ¬ painting.length ≤ limit := by
        intro hle
        exact hpainted ⟨painting, hpainting, hle⟩
      simp [accepts_limited, hlimit, Mark.apply]

theorem stopsAfter (board : Board Recorder) (request : Request) (limit : Nat) :
    board.StopsAfter request limit where
  unlimited := by rw [display_fulfil, carryOut_unlimited]; rfl
  done := ⟨_, outcome_unlimited board request⟩
  limited := by rw [display_fulfil, carryOut_limited]; rfl
  outcome := by rw [outcome_limited, outcome_unlimited]
  painted := shown_limited_of_hasPainted
  unpainted := shown_limited_of_not_hasPainted
  border := by
    rintro rfl
    by_cases hpainted : board.HasPainted .border
      ((Request.border.calls board.frame board.shown).take limit)
    · exact shown_limited_of_hasPainted hpainted
    · exact shown_limited_of_not_hasPainted hpainted
  idle := by
    rintro text rfl hnone
    rw [fulfil_eq]
    simp [Request.painting?, Request.events, hnone]

end Limited

section Runs

variable {δ : Type} [Rehearsal δ]

/-- The text that a step draws or blanks, if the display takes the calls for that. -/
def stepMark (board : Board δ) (step : Step) : Mark :=
  step.request?.elim .kept board.mark

/-- The board after the steps of a script. -/
def play (board : Board δ) : List Step → Board δ
  | [] => board
  | first :: rest => (board.step first).2.play rest

/-- The texts that the steps of a script draw or blank, one mark for each step. -/
def marks (board : Board δ) : List Step → List Mark
  | [] => []
  | first :: rest => board.stepMark first :: (board.step first).2.marks rest

theorem shown_step (board : Board δ) (step : Step) :
    (board.step step).2.shown = (board.stepMark step).apply board.shown := by
  rw [stepMark]
  cases hrequest : step.request? with
  | none => exact shown_step_of_no_request hrequest
  | some request =>
      rw [step_of_request hrequest]
      exact shown_fulfil board request

theorem shown_play (board : Board δ) (script : List Step) :
    (board.play script).shown = Mark.applyAll board.shown (board.marks script) := by
  induction script generalizing board with
  | nil => rfl
  | cons first rest ih =>
      rw [play, ih, shown_step]
      rfl

end Runs

/-- If the display fails, a request makes as many of its calls as the display takes. It is refused
if one is left out, and it has changed the record if it has painted its text or the blanks over
it. So, however often the display fails, a text stands where it was last painted, unless it has
been painted over since. -/
theorem record_follows_painting :
    (∀ (board : Board Recorder) (request : Request) (limit : Nat),
      board.StopsAfter request limit) ∧
    ∀ (δ : Type) [Rehearsal δ] (frame : Frame) (display : δ) (script : List Step) (text : String)
      (placement : Placement),
      ((Board.mk frame display {}).play script).shown.find? text = some placement ↔
        ∃ before after, (Board.mk frame display {}).marks script =
            before ++ .drawn text placement :: after ∧
          ∀ mark ∈ after, ¬ mark.Concerns text := by
  refine ⟨stopsAfter, ?_⟩
  intro δ _ frame display script text placement
  rw [shown_play]
  exact Mark.find?_applyAll_eq_some_iff

/-- A hide that fails while the caret moves can be tried again. -/
example :
    let board := (Board.mk ⟨⟨80, 24⟩, 20, 6, 59, 17⟩ ({} : Recorder) {}).play
      [.showText (some "Top") none "Hi", .failAfter (some 1), .hideText "Hi"]
    board.shown.texts = ["Hi"] ∧
      (board.play [.failAfter none, .hideText "Hi"]).shown.texts = [] := by
  decide +kernel

end Board

end Captions
