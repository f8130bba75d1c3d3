import Captions.Proofs.Board.Displays

/-! # Sixteen bits are enough

A viewport has room for a frame as soon as it has three columns and three rows. Then the frame, the
border and the first cell of every text lie in the viewport, so no number that is computed for them
in sixteen bits starts over: not the sides of the frame, not the rows of the border, and not the
rows and columns that are counted from one on the wire.
-/

namespace Captions

namespace Frame

/-- The frame and all that is drawn for it have their place in the viewport. -/
structure FitsIn (frame : Frame) (viewport : Viewport) : Prop where
  columns : frame.left.toNat < frame.right.toNat ∧ frame.right.toNat < viewport.width.toNat
  rows : frame.top.toNat < frame.bottom.toNat ∧ frame.bottom.toNat < viewport.height.toNat
  border_columns :
    frame.border.left.toNat + frame.border.innerWidth.toNat + 1 < viewport.width.toNat
  border_rows :
    frame.border.top.toNat + frame.border.innerHeight.toNat + 1 < viewport.height.toNat
  texts : ∀ (placement : Placement) (length : Nat),
    (frame.layout placement length).column.toNat < viewport.width.toNat ∧
      (frame.layout placement length).row.toNat < viewport.height.toNat

/-- What is computed in sixteen bits is what would be computed without a bound. -/
structure CountsExactly (frame : Frame) (viewport : Viewport) : Prop where
  right : frame.right.toNat = 3 * viewport.width.toNat / 4 - 1
  bottom : frame.bottom.toNat = 3 * viewport.height.toNat / 4 - 1
  border_rows : ∀ offset ≤ frame.border.innerHeight.toNat + 1,
    (frame.border.top + offset.toUInt16).toNat = frame.border.top.toNat + offset
  wire : ∀ (request : Request) (shown : Shown) (target : Position),
    .move target ∈ request.calls frame shown →
      (target.column + 1).toNat = target.column.toNat + 1 ∧
        (target.row + 1).toNat = target.row.toNat + 1
  output : ∀ (request : Request) (shown : Shown), ∀ call ∈ request.calls frame shown,
    Terminal.encode call = call.escapes

variable {viewport : Viewport} {frame : Frame}

theorem fitsIn_of_ofViewport? (hframe : ofViewport? viewport = some frame) :
    frame.FitsIn viewport := by
  obtain ⟨hwidth, hheight⟩ := three_le_of_ofViewport? hframe
  obtain ⟨_, _, _, hright, hbottom⟩ := toNat_of_ofViewport? hframe
  obtain ⟨hcolumns, hrows⟩ := sides_lt hframe
  obtain ⟨hborderRight, hborderBottom⟩ := border_lt hframe
  exact ⟨⟨hcolumns, by omega⟩, ⟨hrows, by omega⟩, hborderRight, hborderBottom, layout_lt hframe⟩

theorem countsExactly_of_ofViewport? (hframe : ofViewport? viewport = some frame) :
    frame.CountsExactly viewport where
  right := (toNat_of_ofViewport? hframe).2.2.2.1
  bottom := (toNat_of_ofViewport? hframe).2.2.2.2
  border_rows := fun _ hoffset => frame.toNat_border_row hoffset
  wire := by
    intro request shown target hmem
    obtain ⟨hcolumn, hrow⟩ := Board.isWithin_of_mem_calls hframe (.move target) hmem
    exact ⟨toNat_add_one hcolumn, toNat_add_one hrow⟩
  output := fun _ _ call hcall =>
    Terminal.encode_eq_escapes (Board.isWithin_of_mem_calls hframe call hcall)

/-- A viewport has a frame exactly if it has three columns and three rows, and then everything lies
inside the viewport and nothing is computed wrong in sixteen bits. -/
theorem fits_and_counts (viewport : Viewport) :
    ((ofViewport? viewport).isSome ↔ 3 ≤ viewport.width.toNat ∧ 3 ≤ viewport.height.toNat) ∧
      ∀ frame, ofViewport? viewport = some frame →
        frame.FitsIn viewport ∧ frame.CountsExactly viewport :=
  ⟨isSome_ofViewport?_iff, fun _ hframe =>
    ⟨fitsIn_of_ofViewport? hframe, countsExactly_of_ofViewport? hframe⟩⟩

/-- The smallest and the largest viewport with a frame. -/
theorem fits_and_counts_extremes :
    ((⟨⟨3, 3⟩, 0, 0, 1, 1⟩ : Frame).FitsIn ⟨3, 3⟩ ∧
        (⟨⟨3, 3⟩, 0, 0, 1, 1⟩ : Frame).CountsExactly ⟨3, 3⟩) ∧
      (⟨⟨65535, 65535⟩, 16383, 16383, 49150, 49150⟩ : Frame).FitsIn ⟨65535, 65535⟩ ∧
        (⟨⟨65535, 65535⟩, 16383, 16383, 49150, 49150⟩ : Frame).CountsExactly ⟨65535, 65535⟩ := by
  have hsmallest : ofViewport? ⟨3, 3⟩ = some ⟨⟨3, 3⟩, 0, 0, 1, 1⟩ := by decide
  have hlargest : ofViewport? ⟨65535, 65535⟩ =
      some ⟨⟨65535, 65535⟩, 16383, 16383, 49150, 49150⟩ := by decide
  exact ⟨(fits_and_counts _).2 _ hsmallest, (fits_and_counts _).2 _ hlargest⟩

end Frame

end Captions
