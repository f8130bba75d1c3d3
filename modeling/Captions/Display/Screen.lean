import Captions.Display.Basic

/-! # Screens

A display that is the picture itself: one character for each cell of a viewport,
without colours. It carries out every call. Painted text runs to the right from
the caret and is cut off at the edge of the viewport.
-/

namespace Captions

/-- A place on a screen, with column and row counted from zero. -/
structure Cell where
  column : Nat
  row : Nat
deriving DecidableEq, Repr

/-- The cell at a position. -/
def Position.cell (position : Position) : Cell :=
  ⟨position.column.toNat, position.row.toNat⟩

/-- Whether a cell lies in a viewport. -/
def Viewport.covers (viewport : Viewport) (cell : Cell) : Bool :=
  cell.column < viewport.width.toNat && cell.row < viewport.height.toNat

/-- The character in every cell. Cells outside the viewport are never painted. -/
structure Screen where
  viewport : Viewport
  caret : Cell
  cells : Cell → Char

namespace Screen

/-- A screen with nothing on it and the caret in the first cell. -/
def blank (viewport : Viewport) : Screen :=
  ⟨viewport, ⟨0, 0⟩, fun _ => ' '⟩

/-- The character that a text starting in one cell puts into another one, if it
gets there. -/
def glyph? (start : Cell) (text : List Char) (cell : Cell) : Option Char :=
  if cell.row = start.row ∧ start.column ≤ cell.column then text[cell.column - start.column]?
  else none

/-- Paints text from the caret on and leaves the caret after it. -/
def paint (text : List Char) (screen : Screen) : Screen :=
  { screen with
    caret := ⟨screen.caret.column + text.length, screen.caret.row⟩
    cells := fun cell =>
      if screen.viewport.covers cell then
        (glyph? screen.caret text cell).getD (screen.cells cell)
      else screen.cells cell }

/-- The screen after a call. -/
def apply (screen : Screen) : Call → Screen
  | .move target => { screen with caret := target.cell }
  | .paint text _ => screen.paint text.toList
  | .flush => screen

end Screen

instance : Display Screen where
  perform call screen := (.done, screen.apply call)

namespace Screen

/-- A screen carries out all calls, one after the other. -/
@[simp] theorem carryOut_eq_foldl (calls : List Call) (screen : Screen) :
    carryOut calls screen = (.done, calls.foldl apply screen) := by
  induction calls generalizing screen with
  | nil => rfl
  | cons call rest ih => exact ih (screen.apply call)

@[simp] theorem glyph?_start (start : Cell) (text : List Char) (row : Nat) (i : Nat) :
    glyph? start text ⟨start.column + i, row⟩ = if row = start.row then text[i]? else none := by
  simp [glyph?]

/-- Painting leaves a cell alone that is in another row, or before the caret, or
after the end of the text. -/
theorem cells_paint_of_not_reached (text : List Char) (screen : Screen) (cell : Cell)
    (h : cell.row ≠ screen.caret.row ∨ cell.column < screen.caret.column ∨
      screen.caret.column + text.length ≤ cell.column) :
    (screen.paint text).cells cell = screen.cells cell := by
  have : glyph? screen.caret text cell = none := by
    simp only [glyph?]
    split
    next reached => exact List.getElem?_eq_none (by omega)
    next => rfl
  simp [paint, this]

end Screen

end Captions
