import Captions.Board

/-! # Board scripts

A script is a list of steps for a board on a display whose failures can be
rehearsed. Each step has an answer, which holds what the step logged and the
record after it.
-/

namespace Captions.Board

/-- One step of a script. A placement and a colour are given by name, or not at
all for the default. -/
inductive Step where
  | showText (placement color : Option String) (text : String)
  | hideText (text : String)
  | isShown (text : String)
  | drawBorder
  /-- Let this many calls succeed and refuse all after them, or refuse none. -/
  | failAfter (limit : Option Nat)
deriving DecidableEq, Repr

/-- Why a step was not carried out. -/
inductive StepError where
  | unknownPlacement (name : String)
  | drawing (error : DrawError)
  | broken
deriving DecidableEq, Repr

/-- The answer to one step. -/
structure Answer where
  result : Except StepError Bool
  events : List Event
  shown : Shown

variable {δ : Type}

/-- The outcome of an operation as the result of a step. -/
def resultOf : Outcome → Except StepError Bool
  | .done changed => .ok changed
  | .refused fault => .error (.drawing (.display fault))
  | .broken => .error .broken

/-- The placement of a given name, the centre if there is no name. -/
def resolvePlacement : Option String → Except StepError Placement
  | none => .ok .centered
  | some name =>
    match Placement.ofName? name with
    | some placement => .ok placement
    | none => .error (.unknownPlacement name)

/-- Names are resolved before anything is drawn, the placement first. -/
def resolveStyle (placement color : Option String) : Except StepError (Placement × Color) := do
  let placement ← resolvePlacement placement
  let color ← (Color.resolve color).mapError .drawing
  return (placement, color)

/-- Answers with the outcome of an operation. -/
def answer (drawing : Drawing δ) : Answer × Board δ :=
  (⟨resultOf drawing.outcome, drawing.events, drawing.board.shown⟩, drawing.board)

/-- Answers with a result that changed nothing on the board. -/
def reply (result : Except StepError Bool) (board : Board δ) : Answer × Board δ :=
  (⟨result, [], board.shown⟩, board)

/-- Carries out one step. -/
def step [Rehearsal δ] (board : Board δ) : Step → Answer × Board δ
  | .showText placement color text =>
    match resolveStyle placement color with
    | .ok (placement, color) => answer (board.showText placement color text)
    | .error error => reply (.error error) board
  | .hideText text => answer (board.hideText text)
  | .isShown text => reply (.ok (board.shown.contains text)) board
  | .drawBorder => answer board.drawBorder
  | .failAfter limit =>
    reply (.ok true) { board with display := Rehearsal.failAfter limit board.display }

end Captions.Board
