import Captions.Proofs.Board.Bounds
import Mathlib.Data.List.Basic

/-! # Where texts start and end

The cell in which a text starts is computed in sixteen bits, from a length that is cut off at 65535,
and still it is the cell that exact formulas give. Texts at the left and at the right stand side by
side if there is room for both in the frame. A text that is no longer than a row of the viewport
ends in it, except that one at the left may reach over the edge. Texts stand in three different rows
as soon as the viewport has six.
-/

namespace Captions

/-- The column in which a text starts, computed with integers. -/
def Viewport.exactColumn (viewport : Viewport) (placement : Placement) (length : Nat) : Int :=
  match placement with
  | .left => (viewport.width.toNat : Int) / 4
  | .right => max 0 (3 * (viewport.width.toNat : Int) / 4 - 1 - length)
  | .centered | .top | .bottom => max 0 ((viewport.width.toNat : Int) / 2 - (length : Int) / 2)

/-- The row in which a text stands, computed with integers. -/
def Viewport.exactRow (viewport : Viewport) : Placement → Int
  | .top => (viewport.height.toNat : Int) / 4
  | .left | .right | .centered => (viewport.height.toNat : Int) / 2 - 1
  | .bottom => 3 * (viewport.height.toNat : Int) / 4 - 1

/-- Which of the three rows of a frame a placement belongs to, counted from the top. -/
def Placement.level : Placement → Nat
  | top => 0
  | left | right | centered => 1
  | bottom => 2

/-- The cells of a text at a placement. -/
def Frame.textCells (frame : Frame) (placement : Placement) (length : Nat) : List Cell :=
  (frame.layout placement length).stretch length

namespace Frame

variable {viewport : Viewport} {frame : Frame}

/-- Neither the cut-off length nor a difference that stays at zero can be told from exact numbers: a
text that long starts in the first column anyway. -/
theorem column_layout (hframe : ofViewport? viewport = some frame) (placement : Placement)
    (length : Nat) :
    ((frame.layout placement length).column.toNat : Int) =
      viewport.exactColumn placement length := by
  obtain ⟨rfl, hleft, _, hright, _⟩ := toNat_of_ofViewport? hframe
  obtain ⟨hwidth, _⟩ := three_le_of_ofViewport? hframe
  have hmax := frame.viewport.width.toNat_lt
  cases placement with
  | left =>
      simp only [layout, Viewport.exactColumn, hleft]
      omega
  | right =>
      simp only [layout, Viewport.exactColumn, toNat_stepBack, toNat_cellCount, hright]
      omega
  | centered | top | bottom =>
      simp only [layout, Viewport.exactColumn, toNat_centeredColumn, toNat_cellCount]
      omega

theorem row_layout (hframe : ofViewport? viewport = some frame) (placement : Placement)
    (length : Nat) :
    ((frame.layout placement length).row.toNat : Int) = viewport.exactRow placement := by
  obtain ⟨rfl, _, htop, _, hbottom⟩ := toNat_of_ofViewport? hframe
  obtain ⟨_, hheight⟩ := three_le_of_ofViewport? hframe
  cases placement with
  | top =>
      simp only [layout, Viewport.exactRow, htop]
      omega
  | bottom =>
      simp only [layout, Viewport.exactRow, hbottom]
      omega
  | left | right | centered =>
      simp only [layout, Viewport.exactRow, toNat_middleRow]
      omega

/-- A text of any length starts in the cell that the exact formulas give. -/
theorem layout_is_exact (hframe : ofViewport? viewport = some frame) (placement : Placement)
    (length : Nat) :
    ((frame.layout placement length).column.toNat : Int) = viewport.exactColumn placement length ∧
      ((frame.layout placement length).row.toNat : Int) = viewport.exactRow placement :=
  ⟨column_layout hframe placement length, row_layout hframe placement length⟩

/-- The largest viewport has its centre in column 32767, which half of the longest length that is
counted just reaches. -/
theorem layout_is_exact_beyond_sixteen_bits :
    ofViewport? ⟨65535, 3⟩ = some ⟨⟨65535, 3⟩, 16383, 0, 49150, 1⟩ ∧
      (((⟨⟨65535, 3⟩, 16383, 0, 49150, 1⟩ : Frame).layout .top 65533).column.toNat : Int) = 1 ∧
      (((⟨⟨65535, 3⟩, 16383, 0, 49150, 1⟩ : Frame).layout .top 65536).column.toNat : Int) = 0 := by
  have hframe : ofViewport? ⟨65535, 3⟩ = some ⟨⟨65535, 3⟩, 16383, 0, 49150, 1⟩ := by decide
  refine ⟨hframe, ?_, ?_⟩
  · exact (layout_is_exact hframe .top 65533).1.trans (by decide)
  · exact (layout_is_exact hframe .top 65536).1.trans (by decide)

theorem mem_textCells {placement : Placement} {length : Nat} {cell : Cell} :
    cell ∈ frame.textCells placement length ↔
      cell.row = (frame.layout placement length).row.toNat ∧
        (frame.layout placement length).column.toNat ≤ cell.column ∧
        cell.column < (frame.layout placement length).column.toNat + length :=
  Position.mem_stretch

/-- Texts that fit into the frame together have their cells between its sides, the one at the left
before the one at the right. -/
theorem sides_of_fitting (hframe : ofViewport? viewport = some frame) {first second : Nat}
    (hfits : first + second ≤ frame.right.toNat - frame.left.toNat) :
    (frame.layout .left first).column.toNat = frame.left.toNat ∧
      frame.left.toNat + first ≤ (frame.layout .right second).column.toNat ∧
      (frame.layout .right second).column.toNat + second = frame.right.toNat := by
  obtain ⟨hsides, _⟩ := sides_lt hframe
  have hright := column_layout hframe .right second
  obtain ⟨_, _, _, hsideRight, _⟩ := toNat_of_ofViewport? hframe
  simp only [Viewport.exactColumn] at hright
  refine ⟨rfl, ?_, ?_⟩ <;> omega

theorem disjoint_textCells_left_right (hframe : ofViewport? viewport = some frame)
    {first second : Nat} (hfits : first + second ≤ frame.right.toNat - frame.left.toNat) :
    (frame.textCells .left first).Disjoint (frame.textCells .right second) := by
  obtain ⟨hleft, hmiddle, _⟩ := sides_of_fitting hframe hfits
  intro cell hfirst hsecond
  rw [mem_textCells] at hfirst hsecond
  omega

/-- A text ends in the viewport unless it is longer than a row, or stands too far right because it
starts at the left side of the frame whatever its length is. -/
theorem column_add_le_iff (hframe : ofViewport? viewport = some frame) (placement : Placement)
    (length : Nat) :
    (frame.layout placement length).column.toNat + length ≤ viewport.width.toNat ↔
      length ≤ viewport.width.toNat ∧
        (placement = .left → frame.left.toNat + length ≤ viewport.width.toNat) := by
  have hcolumn := column_layout hframe placement length
  cases placement with
  | left =>
      constructor
      · intro hends
        exact ⟨Nat.le_trans (Nat.le_add_left _ _) hends, fun _ => hends⟩
      · rintro ⟨_, hends⟩
        exact hends rfl
  | right | centered | top | bottom =>
      simp only [Viewport.exactColumn, reduceCtorEq, false_implies, and_true] at hcolumn ⊢
      omega

/-- With six rows there is one for each level. -/
theorem row_lt_row (hframe : ofViewport? viewport = some frame)
    (hheight : 6 ≤ viewport.height.toNat) {upper lower : Placement}
    (hlevel : upper.level < lower.level) (first second : Nat) :
    (frame.layout upper first).row.toNat < (frame.layout lower second).row.toNat := by
  have hupper := row_layout hframe upper first
  have hlower := row_layout hframe lower second
  cases upper <;> cases lower <;> simp only [Placement.level, Viewport.exactRow] at * <;> omega

/-- With fewer rows the one at the top is the one in the middle. -/
theorem row_top_eq (hframe : ofViewport? viewport = some frame)
    (hheight : viewport.height.toNat < 6) (first second : Nat) :
    (frame.layout .top first).row.toNat = (frame.layout .centered second).row.toNat := by
  obtain ⟨_, hleast⟩ := three_le_of_ofViewport? hframe
  have htop := row_layout hframe .top first
  have hcentered := row_layout hframe .centered second
  simp only [Viewport.exactRow] at htop hcentered
  omega

theorem row_lt_row_iff (hframe : ofViewport? viewport = some frame) :
    (∀ upper lower : Placement, upper.level < lower.level → ∀ first second : Nat,
      (frame.layout upper first).row.toNat < (frame.layout lower second).row.toNat) ↔
      6 ≤ viewport.height.toNat := by
  constructor
  · intro hrows
    refine Nat.le_of_not_lt ?_
    intro hheight
    have hlt := hrows .top .centered (by decide) 0 0
    exact Nat.ne_of_lt hlt (row_top_eq hframe hheight 0 0)
  · intro hheight upper lower hlevel
    exact row_lt_row hframe hheight hlevel

theorem disjoint_textCells_iff (hframe : ofViewport? viewport = some frame) :
    (∀ upper lower : Placement, upper.level < lower.level → ∀ first second : Nat,
      (frame.textCells upper first).Disjoint (frame.textCells lower second)) ↔
      6 ≤ viewport.height.toNat := by
  constructor
  · intro hdisjoint
    refine Nat.le_of_not_lt ?_
    intro hheight
    -- a single character at the top stands where one in the centre does
    have hrow := row_top_eq hframe hheight 1 1
    have htop : (frame.layout .top 1).cell ∈ frame.textCells .top 1 :=
      mem_textCells.mpr ⟨rfl, Nat.le_refl _, Nat.lt_succ_self _⟩
    have hcentered : (frame.layout .top 1).cell ∈ frame.textCells .centered 1 :=
      mem_textCells.mpr ⟨hrow, Nat.le_refl _, Nat.lt_succ_self _⟩
    exact hdisjoint .top .centered (by decide) 1 1 htop hcentered
  · intro hheight upper lower hlevel first second cell hupper hlower
    have hlt := row_lt_row hframe hheight hlevel first second
    rw [mem_textCells] at hupper hlower
    omega

/-- How far texts reach in a frame and in its viewport. -/
structure HoldsTexts (frame : Frame) (viewport : Viewport) : Prop where
  apart : ∀ first second : Nat, first + second ≤ frame.right.toNat - frame.left.toNat →
    (frame.textCells .left first).Disjoint (frame.textCells .right second)
  between : ∀ first second : Nat, first + second ≤ frame.right.toNat - frame.left.toNat →
    ∀ cell ∈ frame.textCells .left first ++ frame.textCells .right second,
      frame.left.toNat ≤ cell.column ∧ cell.column < frame.right.toNat
  ends_iff : ∀ (placement : Placement) (length : Nat),
    (frame.layout placement length).column.toNat + length ≤ viewport.width.toNat ↔
      length ≤ viewport.width.toNat ∧
        (placement = .left → frame.left.toNat + length ≤ viewport.width.toNat)
  rows_iff : (∀ upper lower : Placement, upper.level < lower.level → ∀ first second : Nat,
    (frame.layout upper first).row.toNat < (frame.layout lower second).row.toNat) ↔
      6 ≤ viewport.height.toNat
  cells_iff : (∀ upper lower : Placement, upper.level < lower.level → ∀ first second : Nat,
    (frame.textCells upper first).Disjoint (frame.textCells lower second)) ↔
      6 ≤ viewport.height.toNat

/-- Texts at the two sides share the frame if there is room for both, a text that is not too long
stays in the viewport, and texts at different levels stay apart in six rows and not in fewer. -/
theorem holds_texts (hframe : ofViewport? viewport = some frame) : frame.HoldsTexts viewport where
  apart := fun _ _ hfits => disjoint_textCells_left_right hframe hfits
  between := by
    intro first second hfits cell hcell
    obtain ⟨hleft, hmiddle, hright⟩ := sides_of_fitting hframe hfits
    rcases List.mem_append.mp hcell with hcell | hcell
    · rw [mem_textCells] at hcell
      omega
    · rw [mem_textCells] at hcell
      omega
  ends_iff := column_add_le_iff hframe
  rows_iff := row_lt_row_iff hframe
  cells_iff := disjoint_textCells_iff hframe

/-- In an uneven viewport of six rows two texts fill the frame between them, and long ones at
different levels do not meet. -/
theorem holds_texts_uneven :
    ofViewport? ⟨43, 6⟩ = some ⟨⟨43, 6⟩, 10, 1, 31, 3⟩ ∧
      ((⟨⟨43, 6⟩, 10, 1, 31, 3⟩ : Frame).textCells .left 8).Disjoint
        ((⟨⟨43, 6⟩, 10, 1, 31, 3⟩ : Frame).textCells .right 13) ∧
      ((⟨⟨43, 6⟩, 10, 1, 31, 3⟩ : Frame).textCells .top 100).Disjoint
        ((⟨⟨43, 6⟩, 10, 1, 31, 3⟩ : Frame).textCells .bottom 100) := by
  have hframe : ofViewport? ⟨43, 6⟩ = some ⟨⟨43, 6⟩, 10, 1, 31, 3⟩ := by decide
  have hholds := holds_texts hframe
  refine ⟨hframe, hholds.apart 8 13 (by decide), ?_⟩
  exact hholds.cells_iff.mpr (by decide) .top .bottom (by decide) 100 100

end Frame

end Captions
