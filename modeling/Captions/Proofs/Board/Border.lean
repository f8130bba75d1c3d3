import Captions.Board
import Captions.Display.Screen

/-! # The border and the texts inside

The border is drawn around all texts that fit into the frame. Its sides and those of the
frame are rounded in different ways, so in a viewport whose side leaves three over when
divided by four, a text at the right or at the bottom reaches one cell too far.
-/

namespace Captions

/-- The cells of a text that starts at a position. -/
def Position.stretch (position : Position) (length : Nat) : List Cell :=
  (List.range length).map fun i => ⟨position.column.toNat + i, position.row.toNat⟩

theorem Position.mem_stretch {position : Position} {length : Nat} {cell : Cell} :
    cell ∈ position.stretch length ↔ cell.row = position.row.toNat ∧
      position.column.toNat ≤ cell.column ∧ cell.column < position.column.toNat + length := by
  obtain ⟨column, row⟩ := cell
  simp only [stretch, List.mem_map, List.mem_range, Cell.mk.injEq]
  constructor
  · rintro ⟨i, hi, rfl, rfl⟩
    omega
  · rintro ⟨rfl, hfirst, hlast⟩
    exact ⟨column - position.column.toNat, by omega, by omega, rfl⟩

namespace Border

/-- The cell lies in the area inside the border. -/
def Encloses (border : Border) (cell : Cell) : Prop :=
  border.left.toNat < cell.column ∧
    cell.column ≤ border.left.toNat + border.innerWidth.toNat ∧
    border.top.toNat < cell.row ∧ cell.row ≤ border.top.toNat + border.innerHeight.toNat

/-- A text is inside if its first and its last cell are. -/
theorem encloses_stretch_iff {border : Border} {position : Position} {length : Nat}
    (hlength : 1 ≤ length) :
    (∀ cell ∈ position.stretch length, border.Encloses cell) ↔
      border.left.toNat < position.column.toNat ∧
        position.column.toNat + length ≤ border.left.toNat + border.innerWidth.toNat + 1 ∧
        border.top.toNat < position.row.toNat ∧
        position.row.toNat ≤ border.top.toNat + border.innerHeight.toNat := by
  simp only [Position.mem_stretch, Encloses]
  constructor
  · intro hall
    have hfirst := hall ⟨position.column.toNat, position.row.toNat⟩ ⟨rfl, by simp, by simp; omega⟩
    have hlast := hall ⟨position.column.toNat + (length - 1), position.row.toNat⟩
      ⟨rfl, by simp, by simp; omega⟩
    dsimp only at hfirst hlast
    omega
  · intro hends cell hcell
    omega

end Border

namespace Frame

theorem toNat_of_ofViewport? {viewport : Viewport} {frame : Frame}
    (hframe : ofViewport? viewport = some frame) :
    frame.viewport = viewport ∧ frame.left.toNat = viewport.width.toNat / 4 ∧
      frame.top.toNat = viewport.height.toNat / 4 ∧
      frame.right.toNat = 3 * viewport.width.toNat / 4 - 1 ∧
      frame.bottom.toNat = 3 * viewport.height.toNat / 4 - 1 := by
  simp only [ofViewport?] at hframe
  split at hframe
  next =>
    cases hframe
    simp
  next => cases hframe

@[simp] theorem toNat_middleRow (frame : Frame) :
    frame.middleRow.toNat = frame.viewport.height.toNat / 2 - 1 := by
  simp [middleRow]

@[simp] theorem toNat_centeredColumn (frame : Frame) (length : UInt16) :
    (frame.centeredColumn length).toNat = frame.viewport.width.toNat / 2 - length.toNat / 2 := by
  simp [centeredColumn]

theorem toNat_border (frame : Frame) :
    frame.border.left.toNat = frame.viewport.width.toNat / 4 - 2 ∧
      frame.border.top.toNat = frame.viewport.height.toNat / 4 - 1 ∧
      frame.border.innerWidth.toNat = frame.viewport.width.toNat / 2 ∧
      frame.border.innerHeight.toNat = frame.viewport.height.toNat / 2 := by
  simp [border]

/-- There is room for a frame in three columns and three rows, and not in fewer. -/
theorem isSome_ofViewport?_iff {viewport : Viewport} :
    (ofViewport? viewport).isSome ↔ 3 ≤ viewport.width.toNat ∧ 3 ≤ viewport.height.toNat := by
  simp only [ofViewport?, Option.isSome_ite, UInt16.lt_iff_toNat_lt, toNat_threeQuarters,
    UInt16.toNat_div, UInt16.reduceToNat]
  omega

theorem exists_ofViewport? {viewport : Viewport} (hwidth : 8 ≤ viewport.width.toNat)
    (hheight : 4 ≤ viewport.height.toNat) : ∃ frame, ofViewport? viewport = some frame :=
  Option.isSome_iff_exists.mp (isSome_ofViewport?_iff.mpr ⟨by omega, by omega⟩)

end Frame

/-- Whether texts at the placement reach over the border in the viewport. -/
def Viewport.Spills (viewport : Viewport) (placement : Placement) : Prop :=
  placement = .right ∧ viewport.width.toNat % 4 = 3 ∨
    placement = .bottom ∧ viewport.height.toNat % 4 = 3

/-- The cells of a text that is not too long lie inside the border unless it spills. -/
theorem Frame.encloses_layout_iff {viewport : Viewport} {frame : Frame}
    (hframe : ofViewport? viewport = some frame) (hwidth : 8 ≤ viewport.width.toNat)
    (hheight : 4 ≤ viewport.height.toNat) {length : Nat} (hlength : 1 ≤ length)
    (hfits : length ≤ 2 * (viewport.width.toNat / 4) - 2) (placement : Placement) :
    (∀ cell ∈ (frame.layout placement length).stretch length, frame.border.Encloses cell) ↔
      ¬ viewport.Spills placement := by
  obtain ⟨rfl, hleft, htop, hright, hbottom⟩ := toNat_of_ofViewport? hframe
  have hmax := frame.viewport.width.toNat_lt
  obtain ⟨hborderLeft, hborderTop, hinnerWidth, hinnerHeight⟩ := frame.toNat_border
  have hcount : min length 65535 = length := by omega
  rw [Border.encloses_stretch_iff hlength, hborderLeft, hborderTop, hinnerWidth, hinnerHeight]
  cases placement with
  | centered =>
      simp only [layout, toNat_centeredColumn, toNat_middleRow, toNat_cellCount, hcount,
        Viewport.Spills, reduceCtorEq, false_and, or_self, not_false_iff, iff_true]
      omega
  | top =>
      simp only [layout, toNat_centeredColumn, toNat_cellCount, hcount, htop,
        Viewport.Spills, reduceCtorEq, false_and, or_self, not_false_iff, iff_true]
      omega
  | bottom =>
      simp only [layout, toNat_centeredColumn, toNat_cellCount, hcount, hbottom,
        Viewport.Spills, reduceCtorEq, false_and, false_or, true_and]
      omega
  | left =>
      simp only [layout, toNat_middleRow, hleft,
        Viewport.Spills, reduceCtorEq, false_and, or_self, not_false_iff, iff_true]
      omega
  | right =>
      simp only [layout, toNat_middleRow, toNat_stepBack, toNat_cellCount, hcount, hright,
        Viewport.Spills, reduceCtorEq, false_and, or_false, true_and]
      omega

namespace Board

variable {cell : Cell}

/-- Drawing a text changes the cells of the text only. -/
theorem cells_draw_paintAt (board : Board Screen) {position : Position} {text : String}
    (hcell : cell ∉ position.stretch text.length) (color : Color) (change : Shown → Shown) :
    (board.draw (paintAt position text color) change).2.display.cells cell =
      board.display.cells cell := by
  rw [Position.mem_stretch] at hcell
  simp only [draw, paintAt, park, Screen.carryOut_eq_foldl, List.foldl_cons, List.foldl_nil,
    Screen.apply]
  refine Screen.cells_paint_of_not_reached _ _ cell ?_
  rw [String.length_toList]
  dsimp only [Position.cell]
  omega

theorem cells_showText (board : Board Screen) {placement : Placement} {text : String}
    (hcell : cell ∉ (board.positionOf placement text).stretch text.length) (color : Color) :
    (board.showText placement color text).board.display.cells cell = board.display.cells cell :=
  board.cells_draw_paintAt hcell color _

theorem cells_hideText (board : Board Screen) {placement : Placement} {text : String}
    (hplace : board.shown.find? text = some placement)
    (hcell : cell ∉ (board.positionOf placement text).stretch text.length) :
    (board.hideText text).board.display.cells cell = board.display.cells cell := by
  have hblank : (blank text.length).length = text.length := by
    rw [blank, String.length_ofList, List.length_replicate]
  rw [hideText, hplace]
  exact board.cells_draw_paintAt (hblank.symm ▸ hcell) _ _

end Board

namespace Screen

theorem cells_foldl_paintAt {screen : Screen} {cell : Cell} (hblank : screen.cells cell = ' ')
    {position : Position} {text : String} (color : Color)
    (hglyph : ∀ char, glyph? position.cell text.toList cell = some char → char = ' ') :
    ((Board.paintAt position text color).foldl apply screen).cells cell = ' ' := by
  simp only [Board.paintAt, List.foldl_cons, List.foldl_nil, apply, paint]
  split
  next =>
    cases hchar : glyph? position.cell text.toList cell with
    | none => exact hblank
    | some char => exact hglyph char hchar
  next => exact hblank

end Screen

theorem Frame.toNat_border_row (frame : Frame) {offset : Nat}
    (hoffset : offset ≤ frame.border.innerHeight.toNat + 1) :
    (frame.border.top + offset.toUInt16).toNat = frame.border.top.toNat + offset := by
  obtain ⟨_, htop, _, hheight⟩ := frame.toNat_border
  have hmax := frame.viewport.height.toNat_lt
  have hsmall : offset.toUInt16.toNat = offset := UInt16.toNat_ofNat_of_lt' (by
    simp only [UInt16.size]
    omega)
  rw [UInt16.toNat_add, hsmall]
  omega

/-- The border paints nothing but blanks into the area inside. -/
theorem Frame.cells_borderCalls (frame : Frame) {cell : Cell}
    (hinside : frame.border.Encloses cell) {screen : Screen} (hblank : screen.cells cell = ' ') :
    ((Board.borderCalls frame.border).foldl Screen.apply screen).cells cell = ' ' := by
  obtain ⟨hleft, hright, htop, hbottom⟩ := hinside
  have hother : ∀ {offset : Nat} (text : List Char), offset ≤ frame.border.innerHeight.toNat + 1 →
      cell.row ≠ frame.border.top.toNat + offset → ∀ char,
      Screen.glyph? (Position.cell ⟨frame.border.left, frame.border.top + offset.toUInt16⟩) text
        cell = some char → char = ' ' := by
    intro offset text hoffset hrow char hchar
    rw [Screen.glyph?, if_neg] at hchar
    · cases hchar
    · rw [Position.cell, frame.toNat_border_row hoffset]
      exact fun hreached => hrow hreached.1
  simp only [Board.borderCalls, List.foldl_append, List.foldl_flatMap]
  refine Screen.cells_foldl_paintAt ?_ _ (hother _ (Nat.le_refl _) (by omega))
  refine List.foldlRecOn (motive := fun screen : Screen => screen.cells cell = ' ') _ _ ?_ ?_
  · exact Screen.cells_foldl_paintAt hblank _ (hother _ (Nat.zero_le _) (by omega))
  · intro screen hscreen row hrow
    refine Screen.cells_foldl_paintAt hscreen _ ?_
    by_cases hsame : cell.row = frame.border.top.toNat + (row + 1)
    · intro char hchar
      have hlist : ("║" ++ Board.blank frame.border.innerWidth.toNat ++ "║").toList =
          '║' :: (List.replicate frame.border.innerWidth.toNat ' ' ++ ['║']) := by
        simp [Board.blank]
      have hcolumn : cell.column - frame.border.left.toNat =
          cell.column - frame.border.left.toNat - 1 + 1 := by omega
      rw [Screen.glyph?, hlist, Position.cell] at hchar
      split at hchar
      next =>
        rw [hcolumn, List.getElem?_cons_succ,
          List.getElem?_append_left (by rw [List.length_replicate]; omega),
          List.getElem?_replicate_of_lt (by omega)] at hchar
        exact (Option.some.inj hchar).symm
      next => cases hchar
    · have hlt := List.mem_range.mp hrow
      exact hother _ (by omega) hsame

/-- A screen with nothing on it but the border. -/
def Frame.picture (frame : Frame) : Screen :=
  (Board.drawBorder ⟨frame, .blank frame.viewport, {}⟩).board.display

theorem Frame.not_encloses_of_picture {frame : Frame} {cell : Cell}
    (hglyph : frame.picture.cells cell ≠ ' ') : ¬ frame.border.Encloses cell := by
  intro hinside
  refine hglyph ?_
  simp only [picture, Board.drawBorder, Board.draw, Board.park, Screen.carryOut_eq_foldl,
    List.foldl_cons, List.foldl_nil, Screen.apply]
  exact frame.cells_borderCalls hinside rfl

/-- The border surrounds every text that does not spill: its cells lie inside, and drawing
and erasing it leaves all that is drawn of the border as it is. -/
theorem Frame.border_surrounds {viewport : Viewport} (hwidth : 8 ≤ viewport.width.toNat)
    (hheight : 4 ≤ viewport.height.toNat) :
    ∃ frame, ofViewport? viewport = some frame ∧
      ∀ (placement : Placement) (length : Nat), 1 ≤ length →
        length ≤ 2 * (viewport.width.toNat / 4) - 2 →
        ((∀ cell ∈ (frame.layout placement length).stretch length, frame.border.Encloses cell) ↔
          ¬ viewport.Spills placement) ∧
        (¬ viewport.Spills placement → ∀ (board : Board Screen) (text : String),
          board.frame = frame → text.length = length → ∀ cell, frame.picture.cells cell ≠ ' ' →
          (∀ color, (board.showText placement color text).board.display.cells cell =
            board.display.cells cell) ∧
          (board.shown.find? text = some placement →
            (board.hideText text).board.display.cells cell = board.display.cells cell)) := by
  obtain ⟨frame, hframe⟩ := exists_ofViewport? hwidth hheight
  refine ⟨frame, hframe, ?_⟩
  intro placement length hlength hfits
  have hinside := encloses_layout_iff hframe hwidth hheight hlength hfits placement
  refine ⟨hinside, ?_⟩
  rintro hspills board text rfl rfl cell hglyph
  have hcell : cell ∉ (board.positionOf placement text).stretch text.length := by
    intro hmem
    exact not_encloses_of_picture hglyph (hinside.mpr hspills cell hmem)
  exact ⟨board.cells_showText hcell, fun hplace => board.cells_hideText hplace hcell⟩

theorem Frame.border_surrounds_uneven :
    ∃ frame, ofViewport? ⟨83, 24⟩ = some frame ∧
      (∀ cell ∈ (frame.layout .top 38).stretch 38, frame.border.Encloses cell) ∧
      ¬ ∀ cell ∈ (frame.layout .right 2).stretch 2, frame.border.Encloses cell := by
  have hwidth : 8 ≤ (⟨83, 24⟩ : Viewport).width.toNat := by decide
  have hheight : 4 ≤ (⟨83, 24⟩ : Viewport).height.toNat := by decide
  obtain ⟨frame, hframe, hplaced⟩ := border_surrounds hwidth hheight
  have htop := (hplaced .top 38 (by decide) (by decide)).1
  have hright := (hplaced .right 2 (by decide) (by decide)).1
  refine ⟨frame, hframe, htop.mpr ?_, fun hinside => hright.mp hinside ?_⟩
  · simp [Viewport.Spills]
  · simp [Viewport.Spills]

/-- In a viewport that spills at the right, a letter takes the place of a bar. -/
theorem Frame.right_text_overwrites_border :
    ∃ frame, ofViewport? ⟨83, 24⟩ = some frame ∧
      frame.picture.cells ⟨60, 11⟩ = '║' ∧
      (Board.showText .right .white "Hi" ⟨frame, frame.picture, {}⟩).board.display.cells
        ⟨60, 11⟩ = 'i' := by
  refine ⟨⟨⟨83, 24⟩, 20, 6, 61, 17⟩, by decide, ?_, ?_⟩
  · rfl
  · rfl

end Captions
