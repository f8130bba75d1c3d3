import Captions.Board.Script
import Captions.Proofs.Board.Calls
import Captions.Proofs.Board.Marks

/-! # Requests to a board

A board can be asked to show a text, to hide one and to draw the border. The frame and the record
settle what it asks the display for and what it logs. If a text is to be hidden that is not shown,
that is nothing at all; otherwise the record follows as soon as the picture has changed.
-/

namespace Captions

/-- What can be done with a text on a board. -/
inductive Operation where
  | showText (placement : Placement) (color : Color) (text : String)
  | hideText (text : String)
deriving DecidableEq, Repr

/-- What a board can be asked to draw. -/
inductive Request where
  | operation (operation : Operation)
  | border
deriving DecidableEq, Repr

namespace Request

/-- The calls that change the picture, unless there is nothing to change. -/
def painting? (frame : Frame) (shown : Shown) : Request → Option (List Call)
  | operation (.showText placement color text) =>
    some [.move (frame.layout placement text.length), .paint text color]
  | operation (.hideText text) =>
    (shown.find? text).map fun placement =>
      [.move (frame.layout placement text.length),
        .paint (String.ofList (List.replicate text.length ' ')) .default]
  | border => some (Board.borderCalls frame.border)

/-- All calls that a request asks for. -/
def calls (frame : Frame) (shown : Shown) (request : Request) : List Call :=
  match request.painting? frame shown with
  | none => []
  | some painting => painting ++ Board.park

/-- What a request logs before its first call. -/
def events (frame : Frame) (shown : Shown) : Request → List Event
  | operation (.showText placement _ text) =>
    [.showingCue text placement (frame.layout placement text.length)]
  | operation (.hideText text) =>
    match shown.find? text with
    | none => [.nothingToHide text]
    | some placement => [.hidingCue text placement (frame.layout placement text.length)]
  | border => []

/-- What a request does to the record once the picture has changed. -/
def mark : Request → Mark
  | operation (.showText placement _ text) => .drawn text placement
  | operation (.hideText text) => .wiped text
  | border => .kept

end Request

namespace Board

section Requests

variable {δ : Type} [Display δ]

/-- Carries out an operation. -/
def operate (board : Board δ) : Operation → Drawing δ
  | .showText placement color text => board.showText placement color text
  | .hideText text => board.hideText text

/-- Does what a board is asked to do. -/
def fulfil (board : Board δ) : Request → Drawing δ
  | .operation operation => board.operate operation
  | .border => board.drawBorder

/-- A request draws what it has to paint, if anything, and then changes the record. -/
theorem fulfil_eq (board : Board δ) (request : Request) :
    board.fulfil request =
      match request.painting? board.frame board.shown with
      | none => ⟨.done false, request.events board.frame board.shown, board⟩
      | some painting =>
        ⟨.ofStatus (board.draw painting request.mark.apply).1,
          request.events board.frame board.shown, (board.draw painting request.mark.apply).2⟩ := by
  cases request with
  | operation operation =>
      cases operation with
      | showText placement color text => rfl
      | hideText text =>
          rw [fulfil, operate, hideText, Request.painting?, Request.events]
          cases board.shown.find? text with
          | none => rfl
          | some placement => rfl
  | border => rfl

theorem display_fulfil (board : Board δ) (request : Request) :
    (board.fulfil request).board.display =
      (carryOut (request.calls board.frame board.shown) board.display).2 := by
  rw [fulfil_eq, Request.calls]
  cases request.painting? board.frame board.shown with
  | none => rfl
  | some painting => exact display_draw _ _ _

theorem frame_fulfil (board : Board δ) (request : Request) :
    (board.fulfil request).board.frame = board.frame := by
  rw [fulfil_eq]
  cases request.painting? board.frame board.shown with
  | none => rfl
  | some painting => exact frame_draw _ _ _

theorem frame_operate (board : Board δ) (operation : Operation) :
    (board.operate operation).board.frame = board.frame :=
  board.frame_fulfil (.operation operation)

/-- A request ends as its calls end, and if there are none there was nothing to do. -/
theorem outcome_fulfil (board : Board δ) (request : Request) :
    (board.fulfil request).outcome =
      if request.painting? board.frame board.shown = none then .done false
      else .ofStatus (carryOut (request.calls board.frame board.shown) board.display).1 := by
  rw [fulfil_eq, Request.calls]
  cases request.painting? board.frame board.shown with
  | none => rfl
  | some painting => exact congrArg Outcome.ofStatus (status_draw _ _ _)

/-- The text that a request draws or blanks, if the display takes all that is to be painted. -/
def mark (board : Board δ) (request : Request) : Mark :=
  match request.painting? board.frame board.shown with
  | none => .kept
  | some painting => if board.accepts painting then request.mark else .kept

theorem shown_fulfil (board : Board δ) (request : Request) :
    (board.fulfil request).board.shown = (board.mark request).apply board.shown := by
  rw [fulfil_eq, mark]
  cases request.painting? board.frame board.shown with
  | none => rfl
  | some painting =>
      simp only [shown_draw]
      split <;> rfl

end Requests

/-- What a step of a script asks a board to draw, if anything. -/
def Step.request? : Step → Option Request
  | .showText placement color text =>
    match resolveStyle placement color with
    | .ok (placement, color) => some (.operation (.showText placement color text))
    | .error _ => none
  | .hideText text => some (.operation (.hideText text))
  | .drawBorder => some .border
  | .isShown _ | .failAfter _ => none

variable {δ : Type} [Rehearsal δ] {board : Board δ} {step : Step}

theorem step_of_request {request : Request} (hrequest : step.request? = some request) :
    board.step step = answer (board.fulfil request) := by
  cases step with
  | showText placement color text =>
      rw [Step.request?] at hrequest
      rw [Board.step]
      cases hstyle : resolveStyle placement color with
      | ok style =>
          rw [hstyle] at hrequest
          cases hrequest
          rfl
      | error error =>
          rw [hstyle] at hrequest
          cases hrequest
  | hideText text => cases hrequest; rfl
  | drawBorder => cases hrequest; rfl
  | isShown | failAfter => cases hrequest

/-- A step that draws nothing leaves the record as it is. -/
theorem shown_step_of_no_request (hrequest : step.request? = none) :
    (board.step step).2.shown = board.shown := by
  cases step with
  | showText placement color text =>
      rw [Step.request?] at hrequest
      rw [Board.step]
      cases hstyle : resolveStyle placement color with
      | ok style =>
          rw [hstyle] at hrequest
          cases hrequest
      | error error => rfl
  | hideText | drawBorder => cases hrequest
  | isShown | failAfter => rfl

end Board

end Captions
