import Captions.Board.Shown
import Captions.Log

/-! # The board

A board draws texts in a frame on a display and remembers where each text went,
so that it can be erased there. The record follows the display: it changes as
soon as the text itself was painted or blanked, whatever happens afterwards, and
not before.
-/

namespace Captions

/-- A frame on a display, with the record of the texts shown there. -/
structure Board (δ : Type) where
  frame : Frame
  display : δ
  shown : Shown := {}

/-- How an operation on a board ended. -/
inductive Outcome where
  /-- It was carried out; `changed` tells whether there was anything to do. -/
  | done (changed : Bool)
  /-- The display refused one of its calls. -/
  | refused (fault : Fault)
  /-- The display broke. -/
  | broken
deriving DecidableEq, Repr

/-- The outcome of an operation whose calls ended in some way. -/
def Outcome.ofStatus : Status → Outcome
  | .done => done true
  | .refused fault => refused fault
  | .broken => broken

/-- What came of an operation on a board: its outcome, what it logged, and the
board after it. -/
structure Drawing (δ : Type) where
  outcome : Outcome
  events : List Event
  board : Board δ

namespace Board

variable {δ : Type}

/-- Text that covers another one with blanks. -/
def blank (length : Nat) : String :=
  String.ofList (List.replicate length ' ')

/-- The calls that bring the caret to rest after drawing. -/
def park : List Call :=
  [.move .origin, .flush]

/-- The calls that paint a text from a cell on. -/
def paintAt (position : Position) (text : String) (color : Color) : List Call :=
  [.move position, .paint text color]

/-- The calls that draw a border, row by row from the top. -/
def borderCalls (border : Border) : List Call :=
  let width := border.innerWidth.toNat
  let bar := String.ofList (List.replicate width '═')
  let row (offset : Nat) (text : String) :=
    paintAt ⟨border.left, border.top + offset.toUInt16⟩ text .default
  row 0 ("╔" ++ bar ++ "╗")
    ++ (List.range border.innerHeight.toNat).flatMap
      (fun i => row (i + 1) ("║" ++ blank width ++ "║"))
    ++ row (border.innerHeight.toNat + 1) ("╚" ++ bar ++ "╝")

/-- Where a text of some length stands when it is placed somewhere. -/
def positionOf (board : Board δ) (placement : Placement) (text : String) : Position :=
  board.frame.layout placement text.length

/-- Carries out the calls that change the picture, then changes the record, then
parks the caret. If a call is not done, all that would come after it is left
out. -/
def draw [Display δ] (calls : List Call) (change : Shown → Shown) (board : Board δ) :
    Status × Board δ :=
  match carryOut calls board.display with
  | (.done, display) =>
    let parked := carryOut park display
    (parked.1, { board with display := parked.2, shown := change board.shown })
  | (status, display) => (status, { board with display })

/-- Draws a text and records it at its placement. -/
def showText [Display δ] (placement : Placement) (color : Color) (text : String)
    (board : Board δ) : Drawing δ :=
  let position := board.positionOf placement text
  let drawn := board.draw (paintAt position text color) (Shown.insert text placement)
  ⟨.ofStatus drawn.1, [.showingCue text placement position], drawn.2⟩

/-- Erases a text where it stands. If it is not shown there is nothing to do, and
the display is not touched. -/
def hideText [Display δ] (text : String) (board : Board δ) : Drawing δ :=
  match board.shown.find? text with
  | none => ⟨.done false, [.nothingToHide text], board⟩
  | some placement =>
    let position := board.positionOf placement text
    let drawn := board.draw (paintAt position (blank text.length) .default) (Shown.erase text)
    ⟨.ofStatus drawn.1, [.hidingCue text placement position], drawn.2⟩

/-- Draws the border. The record stays as it is. -/
def drawBorder [Display δ] (board : Board δ) : Drawing δ :=
  let drawn := board.draw (borderCalls board.frame.border) id
  ⟨.ofStatus drawn.1, [], drawn.2⟩

end Board

end Captions
