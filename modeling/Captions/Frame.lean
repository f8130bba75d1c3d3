import Captions.Placement

/-! # The frame

Captions are drawn in a frame in the middle of the viewport, half as wide and
half as high, with a border around it. Cells are counted from zero in sixteen
bits, as terminals count them.
-/

namespace Captions

/-- The whole drawable area, in character cells. -/
structure Viewport where
  width : UInt16
  height : UInt16
deriving DecidableEq, Repr

/-- A cell of the viewport. -/
structure Position where
  column : UInt16
  row : UInt16
deriving DecidableEq, Repr

/-- The upper left cell. -/
def Position.origin : Position := ⟨0, 0⟩

/-- The border box: the cell of its upper left corner, and the size of the area
inside, which starts one cell further right and down. -/
structure Border where
  left : UInt16
  top : UInt16
  innerWidth : UInt16
  innerHeight : UInt16
deriving DecidableEq, Repr

/-- The frame of a viewport. Texts placed left start in column `left`, those
placed right end before column `right`; `top` and `bottom` are the rows of texts
placed there. -/
structure Frame where
  viewport : Viewport
  left : UInt16
  top : UInt16
  right : UInt16
  bottom : UInt16
deriving DecidableEq, Repr

/-- The cell some steps before another one, or the first cell if there are not
that many. -/
def stepBack (cell steps : UInt16) : UInt16 :=
  if steps ≤ cell then cell - steps else 0

/-- A length in cells; all lengths from 65535 on count the same. -/
def cellCount (length : Nat) : UInt16 :=
  (min length 65535).toUInt16

/-- The last cell before three quarters of a side. -/
def threeQuarters (side : UInt16) : UInt16 :=
  (3 * side.toNat / 4 - 1).toUInt16

@[simp] theorem toNat_stepBack (cell steps : UInt16) :
    (stepBack cell steps).toNat = cell.toNat - steps.toNat := by
  unfold stepBack
  split
  next h => exact UInt16.toNat_sub_of_le _ _ h
  next h =>
    rw [UInt16.le_iff_toNat_le] at h
    rw [UInt16.toNat_zero]
    omega

@[simp] theorem toNat_cellCount (length : Nat) : (cellCount length).toNat = min length 65535 :=
  UInt16.toNat_ofNat_of_lt' (by simp only [UInt16.size]; omega)

@[simp] theorem toNat_threeQuarters (side : UInt16) :
    (threeQuarters side).toNat = 3 * side.toNat / 4 - 1 := by
  have := side.toNat_lt
  exact UInt16.toNat_ofNat_of_lt' (by simp only [UInt16.size]; omega)

/-- Counting on does not start over below a bound of sixteen bits. -/
theorem toNat_add_one {cell bound : UInt16} (hlt : cell.toNat < bound.toNat) :
    (cell + 1).toNat = cell.toNat + 1 := by
  have hbound := bound.toNat_lt
  rw [UInt16.toNat_add]
  exact Nat.mod_eq_of_lt (Nat.lt_of_le_of_lt hlt hbound)

/-- The complaint about a viewport without room for a frame. -/
def Viewport.tooSmallMessage (viewport : Viewport) : String :=
  "viewport " ++ toString viewport.width.toNat ++ "x" ++ toString viewport.height.toNat
    ++ " is too small to hold a frame"

namespace Frame

/-- The frame of a viewport; there is none if its sides would meet. -/
def ofViewport? (viewport : Viewport) : Option Frame :=
  let left := viewport.width / 4
  let top := viewport.height / 4
  let right := threeQuarters viewport.width
  let bottom := threeQuarters viewport.height
  if left < right ∧ top < bottom then some { viewport, left, top, right, bottom } else none

/-- The row in the middle. -/
def middleRow (frame : Frame) : UInt16 :=
  stepBack (frame.viewport.height / 2) 1

/-- The column from which a centred text of some length starts. -/
def centeredColumn (frame : Frame) (length : UInt16) : UInt16 :=
  stepBack (frame.viewport.width / 2) (length / 2)

/-- The cell in which a text of `length` characters starts when it is placed
somewhere. A text too long for its place starts in the first column. -/
def layout (frame : Frame) (placement : Placement) (length : Nat) : Position :=
  let length := cellCount length
  match placement with
  | .left => ⟨frame.left, frame.middleRow⟩
  | .right => ⟨stepBack frame.right length, frame.middleRow⟩
  | .top => ⟨frame.centeredColumn length, frame.top⟩
  | .bottom => ⟨frame.centeredColumn length, frame.bottom⟩
  | .centered => ⟨frame.centeredColumn length, frame.middleRow⟩

/-- The border of the frame. In a small viewport its corner stays at the edge. -/
def border (frame : Frame) : Border where
  left := stepBack (frame.viewport.width / 4) 2
  top := stepBack (frame.viewport.height / 4) 1
  innerWidth := frame.viewport.width / 2
  innerHeight := frame.viewport.height / 2

end Frame

end Captions
