import Captions.Proofs.Board.Bounds
import Captions.Proofs.Board.Picture
import Mathlib.Data.List.Basic

/-! # The border as a picture

The border is drawn line by line, from the corners at the top to those at the bottom. Each line is
painted once, as wide as the border and within the viewport, so that in the end the box stands on
the screen, empty inside, and all around it is as it was before.
-/

namespace Captions

namespace Border

/-- The column of the right side. -/
def right (border : Border) : Nat :=
  border.left.toNat + border.innerWidth.toNat + 1

/-- The row of the bottom side. -/
def bottom (border : Border) : Nat :=
  border.top.toNat + border.innerHeight.toNat + 1

/-- The cell belongs to a side of the border or lies inside. -/
def Spans (border : Border) (cell : Cell) : Prop :=
  border.left.toNat ≤ cell.column ∧ cell.column ≤ border.right ∧
    border.top.toNat ≤ cell.row ∧ cell.row ≤ border.bottom

instance (border : Border) (cell : Cell) : Decidable (border.Spans cell) :=
  inferInstanceAs (Decidable (_ ∧ _ ∧ _ ∧ _))

theorem spans_iff {border : Border} {column row : Nat} : border.Spans ⟨column, row⟩ ↔
    border.left.toNat ≤ column ∧ column ≤ border.left.toNat + border.innerWidth.toNat + 1 ∧
      border.top.toNat ≤ row ∧ row ≤ border.top.toNat + border.innerHeight.toNat + 1 :=
  Iff.rfl

/-- The two ends of a line of the box and what lies between them, by the row of the line. -/
def brush (border : Border) (row : Nat) : Char × Char × Char :=
  if row = border.top.toNat then ('╔', '═', '╗')
  else if row = border.bottom then ('╚', '═', '╝')
  else ('║', ' ', '║')

/-- The character in a cell of the box. -/
def glyph (border : Border) (cell : Cell) : Char :=
  if cell.column = border.left.toNat then (border.brush cell.row).1
  else if cell.column = border.right then (border.brush cell.row).2.2
  else (border.brush cell.row).2.1

/-- The text of a line of the box. -/
def line (border : Border) (row : Nat) : String :=
  let bar := String.ofList (List.replicate border.innerWidth.toNat '═')
  if row = border.top.toNat then "╔" ++ bar ++ "╗"
  else if row = border.bottom then "╚" ++ bar ++ "╝"
  else "║" ++ String.ofList (List.replicate border.innerWidth.toNat ' ') ++ "║"

/-- The calls that draw a line of the box, counted from its top. -/
def lineCalls (border : Border) (offset : Nat) : List Call :=
  [.move ⟨border.left, border.top + offset.toUInt16⟩,
    .paint (border.line (border.top.toNat + offset)) .default]

variable {border : Border}

theorem left_lt_right : border.left.toNat < border.right := by
  rw [right]
  omega

theorem top_lt_bottom : border.top.toNat < border.bottom := by
  rw [bottom]
  omega

theorem brush_top : border.brush border.top.toNat = ('╔', '═', '╗') :=
  if_pos rfl

theorem brush_bottom : border.brush border.bottom = ('╚', '═', '╝') := by
  rw [brush, if_neg (Nat.ne_of_gt top_lt_bottom), if_pos rfl]

theorem brush_of_between {row : Nat} (htop : border.top.toNat < row) (hbottom : row < border.bottom) :
    border.brush row = ('║', ' ', '║') := by
  rw [brush, if_neg (Nat.ne_of_gt htop), if_neg (Nat.ne_of_lt hbottom)]

theorem glyph_left (row : Nat) :
    border.glyph ⟨border.left.toNat, row⟩ = (border.brush row).1 :=
  if_pos rfl

theorem glyph_right (row : Nat) : border.glyph ⟨border.right, row⟩ = (border.brush row).2.2 := by
  rw [glyph, if_neg (Nat.ne_of_gt left_lt_right), if_pos rfl]

theorem glyph_of_between {column : Nat} (hleft : border.left.toNat < column)
    (hright : column < border.right) (row : Nat) :
    border.glyph ⟨column, row⟩ = (border.brush row).2.1 := by
  rw [glyph, if_neg (Nat.ne_of_gt hleft), if_neg (Nat.ne_of_lt hright)]

theorem line_top : border.line border.top.toNat =
    "╔" ++ String.ofList (List.replicate border.innerWidth.toNat '═') ++ "╗" :=
  if_pos rfl

theorem line_bottom : border.line border.bottom =
    "╚" ++ String.ofList (List.replicate border.innerWidth.toNat '═') ++ "╝" := by
  rw [line, if_neg (Nat.ne_of_gt top_lt_bottom), if_pos rfl]

theorem line_of_between {row : Nat} (htop : border.top.toNat < row)
    (hbottom : row < border.bottom) : border.line row =
      "║" ++ String.ofList (List.replicate border.innerWidth.toNat ' ') ++ "║" := by
  rw [line, if_neg (Nat.ne_of_gt htop), if_neg (Nat.ne_of_lt hbottom)]

theorem toList_line (row : Nat) : (border.line row).toList =
    (border.brush row).1 ::
      (List.replicate border.innerWidth.toNat (border.brush row).2.1 ++ [(border.brush row).2.2]) := by
  rw [line, brush]
  split
  next => simp
  next =>
    split
    next => simp
    next => simp

theorem length_line (row : Nat) : (border.line row).length = border.innerWidth.toNat + 2 := by
  rw [← String.length_toList, toList_line]
  simp

/-- A line of the box holds what belongs into its cells. -/
theorem getElem?_line {row i : Nat} (hi : i < border.innerWidth.toNat + 2) :
    (border.line row).toList[i]? = some (border.glyph ⟨border.left.toNat + i, row⟩) := by
  rw [toList_line, glyph, right]
  dsimp only
  cases i with
  | zero => simp
  | succ i =>
      rw [List.getElem?_cons_succ, if_neg (by omega)]
      -- what follows the left end is the filling or the right end
      by_cases hlast : i = border.innerWidth.toNat
      · rw [if_pos (by omega), List.getElem?_append_right (by simp; omega)]
        simp [hlast]
      · rw [if_neg (by omega), List.getElem?_append_left (by simp; omega),
          List.getElem?_replicate_of_lt (by omega)]

/-- A line that is painted from the left side on fills the cells of the box in its row. -/
theorem glyph?_line {offset : Nat} (hoffset : offset ≤ border.innerHeight.toNat + 1) (cell : Cell) :
    Screen.glyph? ⟨border.left.toNat, border.top.toNat + offset⟩
        (border.line (border.top.toNat + offset)).toList cell =
      if border.Spans cell ∧ cell.row = border.top.toNat + offset then some (border.glyph cell)
      else none := by
  obtain ⟨column, row⟩ := cell
  simp only [Screen.glyph?, spans_iff]
  by_cases hstarts : row = border.top.toNat + offset ∧ border.left.toNat ≤ column
  · rw [if_pos hstarts]
    obtain ⟨rfl, hleft⟩ := hstarts
    obtain ⟨i, rfl⟩ := Nat.exists_eq_add_of_le hleft
    rw [Nat.add_sub_cancel_left]
    by_cases hi : i < border.innerWidth.toNat + 2
    · rw [getElem?_line hi, if_pos (by omega)]
    · have hlong : (border.line (border.top.toNat + offset)).toList.length ≤ i := by
        rw [String.length_toList, length_line]
        omega
      rw [List.getElem?_eq_none hlong, if_neg (by omega)]
  · rw [if_neg hstarts, if_neg (by omega)]

/-- The border is drawn as the lines of the box, each of them once. -/
theorem borderCalls_eq_flatMap (border : Border) :
    Board.borderCalls border =
      (List.range (border.innerHeight.toNat + 2)).flatMap border.lineCalls := by
  have hsides : (List.range border.innerHeight.toNat).flatMap (fun i => border.lineCalls (i + 1)) =
      (List.range border.innerHeight.toNat).flatMap fun i =>
        Board.paintAt ⟨border.left, border.top + (i + 1).toUInt16⟩
          ("║" ++ Board.blank border.innerWidth.toNat ++ "║") .default := by
    refine List.flatMap_congr ?_
    intro i hi
    have hlt := List.mem_range.mp hi
    rw [lineCalls, line_of_between (by omega) (by rw [bottom]; omega)]
    rfl
  have hbottom : border.line (border.top.toNat + (border.innerHeight.toNat + 1)) =
      "╚" ++ String.ofList (List.replicate border.innerWidth.toNat '═') ++ "╝" := line_bottom
  rw [List.range_succ, List.range_succ_eq_map, List.flatMap_append, List.flatMap_cons,
    List.flatMap_map, hsides, List.flatMap_singleton, lineCalls, lineCalls, Nat.add_zero, line_top,
    hbottom]
  rfl

end Border

/-- The whole box lies in the viewport. -/
theorem Frame.covers_of_spans {viewport : Viewport} {frame : Frame}
    (hframe : ofViewport? viewport = some frame) {cell : Cell}
    (hspans : frame.border.Spans cell) : viewport.covers cell := by
  obtain ⟨column, row⟩ := cell
  obtain ⟨hright, hbottom⟩ := border_lt hframe
  rw [Border.spans_iff] at hspans
  simp only [Viewport.covers, Bool.and_eq_true, decide_eq_true_eq]
  omega

namespace Screen

theorem viewport_replay (screen : Screen) (calls : List Call) :
    (screen.replay calls).viewport = screen.viewport := by
  induction calls generalizing screen with
  | nil => rfl
  | cons call rest ih =>
      rw [replay, List.foldl_cons]
      refine (ih _).trans ?_
      cases call with
      | move | paint | flush => rfl

section Lines

variable {viewport : Viewport} {frame : Frame} {screen : Screen}

/-- One line changes the cells of its own row between the sides of the box. -/
theorem cells_replay_lineCalls (hframe : Frame.ofViewport? viewport = some frame)
    (hviewport : screen.viewport = viewport) {offset : Nat}
    (hoffset : offset ≤ frame.border.innerHeight.toNat + 1) (cell : Cell) :
    (screen.replay (frame.border.lineCalls offset)).cells cell =
      if frame.border.Spans cell ∧ cell.row = frame.border.top.toNat + offset then
        frame.border.glyph cell
      else screen.cells cell := by
  have hstart : Position.cell ⟨frame.border.left, frame.border.top + offset.toUInt16⟩ =
      ⟨frame.border.left.toNat, frame.border.top.toNat + offset⟩ := by
    rw [Position.cell, frame.toNat_border_row hoffset]
  have hcells : (screen.replay (frame.border.lineCalls offset)).cells cell =
      if viewport.covers cell then
        (glyph? ⟨frame.border.left.toNat, frame.border.top.toNat + offset⟩
          (frame.border.line (frame.border.top.toNat + offset)).toList cell).getD
          (screen.cells cell)
      else screen.cells cell := by
    rw [← hstart, ← hviewport]
    rfl
  rw [hcells, Border.glyph?_line hoffset]
  by_cases hreached : frame.border.Spans cell ∧ cell.row = frame.border.top.toNat + offset
  · rw [if_pos (Frame.covers_of_spans hframe hreached.1), if_pos hreached, if_pos hreached]
    rfl
  · rw [if_neg hreached, if_neg hreached]
    exact ite_self _

/-- The first lines draw the upper part of the box. -/
theorem cells_replay_lines (hframe : Frame.ofViewport? viewport = some frame)
    (hviewport : screen.viewport = viewport) {count : Nat}
    (hcount : count ≤ frame.border.innerHeight.toNat + 2) (cell : Cell) :
    (screen.replay ((List.range count).flatMap frame.border.lineCalls)).cells cell =
      if frame.border.Spans cell ∧ cell.row < frame.border.top.toNat + count then
        frame.border.glyph cell
      else screen.cells cell := by
  induction count with
  | zero =>
      rw [if_neg]
      · rfl
      · rintro ⟨⟨_, _, htop, _⟩, hrow⟩
        omega
  | succ count ih =>
      rw [List.range_succ, List.flatMap_append, List.flatMap_singleton, replay_append,
        cells_replay_lineCalls hframe ((viewport_replay _ _).trans hviewport) (by omega),
        ih (by omega)]
      -- the line drawn last decides on its own row, and the lines before it on those above
      by_cases hspans : frame.border.Spans cell
      · simp only [hspans, true_and]
        split
        next hrow => rw [if_pos (by omega)]
        next hrow =>
          split
          next => rw [if_pos (by omega)]
          next => rw [if_neg (by omega)]
      · simp only [hspans, false_and, if_false]

end Lines

/-- The box of a border stands on a screen: its corners, its sides and blanks inside. Around it the
screen is as it was before. -/
structure HoldsBox (screen before : Screen) (border : Border) : Prop where
  corners :
    screen.cells ⟨border.left.toNat, border.top.toNat⟩ = '╔' ∧
      screen.cells ⟨border.right, border.top.toNat⟩ = '╗' ∧
      screen.cells ⟨border.left.toNat, border.bottom⟩ = '╚' ∧
      screen.cells ⟨border.right, border.bottom⟩ = '╝'
  horizontal : ∀ column, border.left.toNat < column → column < border.right →
    screen.cells ⟨column, border.top.toNat⟩ = '═' ∧ screen.cells ⟨column, border.bottom⟩ = '═'
  vertical : ∀ row, border.top.toNat < row → row < border.bottom →
    screen.cells ⟨border.left.toNat, row⟩ = '║' ∧ screen.cells ⟨border.right, row⟩ = '║'
  inside : ∀ cell, border.Encloses cell → screen.cells cell = ' '
  outside : ∀ cell, ¬ border.Spans cell → screen.cells cell = before.cells cell

theorem holdsBox_of_cells {screen before : Screen} {border : Border}
    (hcells : ∀ cell, screen.cells cell =
      if border.Spans cell then border.glyph cell else before.cells cell) :
    screen.HoldsBox before border := by
  have hglyph : ∀ {column row : Nat}, border.left.toNat ≤ column → column ≤ border.right →
      border.top.toNat ≤ row → row ≤ border.bottom →
      screen.cells ⟨column, row⟩ = border.glyph ⟨column, row⟩ :=
    fun hleft hright htop hbottom => (hcells _).trans (if_pos ⟨hleft, hright, htop, hbottom⟩)
  have hcolumns := Nat.le_of_lt border.left_lt_right
  have hrows := Nat.le_of_lt border.top_lt_bottom
  refine ⟨⟨?_, ?_, ?_, ?_⟩, ?_, ?_, ?_, ?_⟩
  · rw [hglyph (Nat.le_refl _) hcolumns (Nat.le_refl _) hrows, Border.glyph_left, Border.brush_top]
  · rw [hglyph hcolumns (Nat.le_refl _) (Nat.le_refl _) hrows, Border.glyph_right,
      Border.brush_top]
  · rw [hglyph (Nat.le_refl _) hcolumns hrows (Nat.le_refl _), Border.glyph_left,
      Border.brush_bottom]
  · rw [hglyph hcolumns (Nat.le_refl _) hrows (Nat.le_refl _), Border.glyph_right,
      Border.brush_bottom]
  · intro column hleft hright
    have hfrom := Nat.le_of_lt hleft
    have hto := Nat.le_of_lt hright
    refine ⟨?_, ?_⟩
    · rw [hglyph hfrom hto (Nat.le_refl _) hrows, Border.glyph_of_between hleft hright,
        Border.brush_top]
    · rw [hglyph hfrom hto hrows (Nat.le_refl _), Border.glyph_of_between hleft hright,
        Border.brush_bottom]
  · intro row htop hbottom
    have hfrom := Nat.le_of_lt htop
    have hto := Nat.le_of_lt hbottom
    refine ⟨?_, ?_⟩
    · rw [hglyph (Nat.le_refl _) hcolumns hfrom hto, Border.glyph_left,
        Border.brush_of_between htop hbottom]
    · rw [hglyph hcolumns (Nat.le_refl _) hfrom hto, Border.glyph_right,
        Border.brush_of_between htop hbottom]
  · rintro ⟨column, row⟩ ⟨hleft, hright, htop, hbottom⟩
    have hright := Nat.lt_succ_of_le hright
    have hbottom := Nat.lt_succ_of_le hbottom
    rw [hglyph (Nat.le_of_lt hleft) (Nat.le_of_lt hright) (Nat.le_of_lt htop) (Nat.le_of_lt hbottom),
      Border.glyph_of_between hleft hright, Border.brush_of_between htop hbottom]
  · intro cell houtside
    rw [hcells, if_neg houtside]

/-- The calls for a border put its box on a screen. -/
theorem holdsBox_replay {viewport : Viewport} {frame : Frame} {screen : Screen}
    (hframe : Frame.ofViewport? viewport = some frame) (hviewport : screen.viewport = viewport) :
    (screen.replay (Board.borderCalls frame.border ++ Board.park)).HoldsBox screen frame.border := by
  refine holdsBox_of_cells ?_
  intro cell
  rw [frame.border.borderCalls_eq_flatMap, replay_append]
  refine (cells_replay_lines hframe hviewport (Nat.le_refl _) cell).trans ?_
  refine if_congr (and_iff_left_of_imp ?_) rfl rfl
  intro hspans
  exact Nat.lt_succ_of_le hspans.2.2.2

end Screen

/-- The texts that calls paint one after the other, each with the cell in which the caret stands. -/
def Call.paintings (caret : Cell) : List Call → List (Cell × String)
  | [] => []
  | .move target :: rest => paintings target.cell rest
  | .paint text _ :: rest =>
    (caret, text) :: paintings ⟨caret.column + text.length, caret.row⟩ rest
  | .flush :: rest => paintings caret rest

/-- The calls draw a border from scratch: each line of its box is painted once, in full and within
the viewport, the box then stands on every screen of that size, the caret is at rest, and the device
is told once, when everything is painted. -/
structure Border.IsDrawnBy (border : Border) (viewport : Viewport) (calls : List Call) : Prop where
  starts : ∀ caret, (Call.paintings caret calls).map Prod.fst =
    (List.range (border.innerHeight.toNat + 2)).map fun offset =>
      ⟨border.left.toNat, border.top.toNat + offset⟩
  whole : ∀ caret, ∀ painting ∈ Call.paintings caret calls,
    painting.2.length = border.innerWidth.toNat + 2 ∧
      painting.1.column + painting.2.length ≤ viewport.width.toNat ∧
      painting.1.row < viewport.height.toNat
  holds : ∀ screen : Screen, screen.viewport = viewport →
    (screen.replay calls).HoldsBox screen border
  rests : ∀ screen : Screen, (screen.replay calls).caret = ⟨0, 0⟩
  flushes : calls.count .flush = 1 ∧ calls.getLast? = some .flush

variable {viewport : Viewport} {frame : Frame}

/-- The lines of a box are painted where they belong, wherever the caret stands before. -/
theorem Call.paintings_flatMap_lineCalls (border : Border) {offsets : List Nat} (caret : Cell)
    (hrows : ∀ offset ∈ offsets,
      (border.top + offset.toUInt16).toNat = border.top.toNat + offset) :
    Call.paintings caret (offsets.flatMap border.lineCalls ++ Board.park) =
      offsets.map fun offset => (⟨border.left.toNat, border.top.toNat + offset⟩,
        border.line (border.top.toNat + offset)) := by
  induction offsets generalizing caret with
  | nil => rfl
  | cons offset rest ih =>
      obtain ⟨hrow, hrest⟩ := List.forall_mem_cons.mp hrows
      rw [List.flatMap_cons, List.append_assoc, List.map_cons]
      simp only [Border.lineCalls, List.cons_append, List.nil_append, Call.paintings, Position.cell,
        hrow]
      rw [ih _ hrest]

theorem Call.paintings_borderCalls (frame : Frame) (caret : Cell) :
    Call.paintings caret (Board.borderCalls frame.border ++ Board.park) =
      (List.range (frame.border.innerHeight.toNat + 2)).map fun offset =>
        (⟨frame.border.left.toNat, frame.border.top.toNat + offset⟩,
          frame.border.line (frame.border.top.toNat + offset)) := by
  rw [frame.border.borderCalls_eq_flatMap]
  refine Call.paintings_flatMap_lineCalls frame.border caret ?_
  intro offset hoffset
  exact frame.toNat_border_row (Nat.le_of_lt_succ (List.mem_range.mp hoffset))

namespace Board

theorem flush_notMem_borderCalls (border : Border) : .flush ∉ borderCalls border := by
  rw [border.borderCalls_eq_flatMap]
  simp [Border.lineCalls]

theorem isDrawnBy_borderCalls (hframe : Frame.ofViewport? viewport = some frame) :
    frame.border.IsDrawnBy viewport (borderCalls frame.border ++ park) where
  starts := by
    intro caret
    rw [Call.paintings_borderCalls, List.map_map]
    rfl
  whole := by
    intro caret painting hpainting
    rw [Call.paintings_borderCalls] at hpainting
    obtain ⟨offset, hoffset, rfl⟩ := List.mem_map.mp hpainting
    have hlt := List.mem_range.mp hoffset
    have hlength := frame.border.length_line (frame.border.top.toNat + offset)
    obtain ⟨hright, hbottom⟩ := Frame.border_lt hframe
    dsimp only
    omega
  holds := fun _ hviewport => Screen.holdsBox_replay hframe hviewport
  rests := by
    intro screen
    rw [Screen.replay_append]
    rfl
  flushes := by
    have hcount := List.count_eq_zero.mpr (flush_notMem_borderCalls frame.border)
    refine ⟨?_, by simp [park]⟩
    rw [List.count_append, hcount]
    rfl

/-- If the border is drawn, all its calls are done, and the record is as before. -/
theorem drawBorder_of_done {δ : Type} [Display δ] {board : Board δ} {changed : Bool}
    (houtcome : board.drawBorder.outcome = .done changed) :
    carryOut (borderCalls board.frame.border ++ park) board.display =
        (.done, board.drawBorder.board.display) ∧
      board.drawBorder.board.shown = board.shown := by
  have hdone : (board.draw (borderCalls board.frame.border) id).1 = .done :=
    status_of_outcome houtcome
  refine ⟨?_, shown_draw_of_done hdone⟩
  rw [← draw_eq_carryOut _ id, hdone]
  rfl

/-- What a display is asked for when the border of a frame is drawn draws the box, on a recorder it
is what is written down then, and the record stays as it is. -/
theorem drawBorder_draws_box (hframe : Frame.ofViewport? viewport = some frame) :
    ∃ calls : List Call, frame.border.IsDrawnBy viewport calls ∧
      (∀ (δ : Type) [Display δ] (board : Board δ) (changed : Bool), board.frame = frame →
        board.drawBorder.outcome = .done changed →
        carryOut calls board.display = (.done, board.drawBorder.board.display) ∧
          board.drawBorder.board.shown = board.shown) ∧
      ∀ (board : Board Recorder) (changed : Bool), board.frame = frame →
        board.drawBorder.outcome = .done changed →
        board.drawBorder.board.display.calls = board.display.calls ++ calls := by
  refine ⟨_, isDrawnBy_borderCalls hframe, ?_, ?_⟩
  · rintro δ _ board changed rfl houtcome
    exact drawBorder_of_done houtcome
  · rintro board changed rfl houtcome
    obtain ⟨hcarried, _⟩ := drawBorder_of_done houtcome
    have htape := Recorder.calls_carryOut_of_done (congrArg Prod.fst hcarried)
    rw [hcarried] at htape
    exact htape

/-- In the smallest viewport the box takes up every cell, and eight calls are just enough. -/
theorem drawBorder_draws_box_smallest :
    Frame.ofViewport? ⟨3, 3⟩ = some ⟨⟨3, 3⟩, 0, 0, 1, 1⟩ ∧
      (drawBorder ⟨⟨⟨3, 3⟩, 0, 0, 1, 1⟩, (⟨#[.flush], .failingAfter 8⟩ : Recorder),
        ⟨[("Hi", .top)]⟩⟩).outcome = .done true ∧
      ∃ calls : List Call,
        (drawBorder ⟨⟨⟨3, 3⟩, 0, 0, 1, 1⟩, (⟨#[.flush], .failingAfter 8⟩ : Recorder),
          ⟨[("Hi", .top)]⟩⟩).board.display.calls = #[Call.flush] ++ calls ∧
        ∀ screen : Screen, screen.viewport = ⟨3, 3⟩ →
          (screen.replay calls).cells ⟨1, 1⟩ = ' ' ∧ (screen.replay calls).cells ⟨2, 2⟩ = '╝' := by
  have hframe : Frame.ofViewport? ⟨3, 3⟩ = some ⟨⟨3, 3⟩, 0, 0, 1, 1⟩ := by decide
  have houtcome : (drawBorder ⟨⟨⟨3, 3⟩, 0, 0, 1, 1⟩, (⟨#[.flush], .failingAfter 8⟩ : Recorder),
      ⟨[("Hi", .top)]⟩⟩).outcome = .done true := by
    decide
  obtain ⟨calls, hdrawn, _, htape⟩ := drawBorder_draws_box hframe
  refine ⟨hframe, houtcome, calls, htape _ true rfl houtcome, ?_⟩
  intro screen hscreen
  have hbox := hdrawn.holds screen hscreen
  exact ⟨hbox.inside ⟨1, 1⟩ (by simp [Border.Encloses, Frame.border]), hbox.corners.2.2.2⟩

end Board

end Captions
