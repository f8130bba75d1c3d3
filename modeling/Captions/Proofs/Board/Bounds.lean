import Captions.Proofs.Board.Border
import Captions.Proofs.Board.Requests

/-! # Calls within the viewport

A frame leaves room around it, so every text starts in a cell of the viewport, however long it is
and wherever it is placed, and the border does not reach over the edge.
-/

namespace Captions

namespace Frame

variable {viewport : Viewport} {frame : Frame}

/-- A viewport with a frame has at least three columns and three rows. -/
theorem three_le_of_ofViewport? (hframe : ofViewport? viewport = some frame) :
    3 ≤ viewport.width.toNat ∧ 3 ≤ viewport.height.toNat :=
  isSome_ofViewport?_iff.mp (Option.isSome_of_eq_some hframe)

/-- The sides of a frame do not meet. -/
theorem sides_lt (hframe : ofViewport? viewport = some frame) :
    frame.left.toNat < frame.right.toNat ∧ frame.top.toNat < frame.bottom.toNat := by
  simp only [ofViewport?] at hframe
  split at hframe
  next hroom =>
    cases hframe
    simpa only [UInt16.lt_iff_toNat_lt] using hroom
  next => cases hframe

/-- A text starts in a cell of the viewport. -/
theorem layout_lt (hframe : ofViewport? viewport = some frame) (placement : Placement)
    (length : Nat) :
    (frame.layout placement length).column.toNat < viewport.width.toNat ∧
      (frame.layout placement length).row.toNat < viewport.height.toNat := by
  obtain ⟨hwidth, hheight⟩ := three_le_of_ofViewport? hframe
  obtain ⟨rfl, hleft, htop, hright, hbottom⟩ := toNat_of_ofViewport? hframe
  cases placement with
  | centered | top | bottom | left | right =>
      simp only [layout, toNat_centeredColumn, toNat_middleRow, toNat_stepBack, hleft, htop, hright,
        hbottom]
      omega

/-- The border ends in a column and in a row of the viewport. -/
theorem border_lt (hframe : ofViewport? viewport = some frame) :
    frame.border.left.toNat + frame.border.innerWidth.toNat + 1 < viewport.width.toNat ∧
      frame.border.top.toNat + frame.border.innerHeight.toNat + 1 < viewport.height.toNat := by
  obtain ⟨hwidth, hheight⟩ := three_le_of_ofViewport? hframe
  obtain ⟨rfl, _⟩ := toNat_of_ofViewport? hframe
  obtain ⟨hleft, htop, hinnerWidth, hinnerHeight⟩ := frame.toNat_border
  omega

end Frame

/-- The call does not move the caret out of the viewport. -/
def Call.IsWithin (viewport : Viewport) : Call → Prop
  | move target =>
    target.column.toNat < viewport.width.toNat ∧ target.row.toNat < viewport.height.toNat
  | paint .. | flush => True

namespace Board

/-- The border is drawn row by row. -/
theorem mem_borderCalls {border : Border} {call : Call} (hcall : call ∈ borderCalls border) :
    ∃ offset ≤ border.innerHeight.toNat + 1, ∃ text,
      call ∈ paintAt ⟨border.left, border.top + offset.toUInt16⟩ text .default := by
  simp only [borderCalls, List.mem_append, List.mem_flatMap, List.mem_range] at hcall
  rcases hcall with (htop | ⟨row, hrow, hside⟩) | hbottom
  · exact ⟨0, Nat.zero_le _, _, htop⟩
  · exact ⟨row + 1, by omega, _, hside⟩
  · exact ⟨_, Nat.le_refl _, _, hbottom⟩

variable {viewport : Viewport} {frame : Frame}

theorem isWithin_of_mem_paintAt {position : Position} {text : String} {color : Color}
    (hcolumn : position.column.toNat < viewport.width.toNat)
    (hrow : position.row.toNat < viewport.height.toNat) :
    ∀ call ∈ paintAt position text color, call.IsWithin viewport := by
  simp [paintAt, Call.IsWithin, hcolumn, hrow]

theorem isWithin_of_mem_borderCalls (hframe : Frame.ofViewport? viewport = some frame) :
    ∀ call ∈ borderCalls frame.border, call.IsWithin viewport := by
  intro call hcall
  obtain ⟨offset, hoffset, text, hrow⟩ := mem_borderCalls hcall
  obtain ⟨hright, hbottom⟩ := Frame.border_lt hframe
  have hleft : frame.border.left.toNat < viewport.width.toNat := by omega
  refine isWithin_of_mem_paintAt hleft ?_ call hrow
  rw [frame.toNat_border_row hoffset]
  omega

theorem isWithin_of_mem_painting (hframe : Frame.ofViewport? viewport = some frame)
    {shown : Shown} {request : Request} {painting : List Call}
    (hpainting : request.painting? frame shown = some painting) :
    ∀ call ∈ painting, call.IsWithin viewport := by
  cases request with
  | border =>
      cases hpainting
      exact isWithin_of_mem_borderCalls hframe
  | operation operation =>
      cases operation with
      | showText placement color text =>
          cases hpainting
          obtain ⟨hcolumn, hrow⟩ := Frame.layout_lt hframe placement text.length
          exact isWithin_of_mem_paintAt hcolumn hrow
      | hideText text =>
          obtain ⟨placement, _, rfl⟩ := Option.map_eq_some_iff.mp hpainting
          obtain ⟨hcolumn, hrow⟩ := Frame.layout_lt hframe placement text.length
          exact isWithin_of_mem_paintAt hcolumn hrow

/-- The caret is parked in the first cell of the viewport. -/
theorem isWithin_of_mem_park (hframe : Frame.ofViewport? viewport = some frame) :
    ∀ call ∈ park, call.IsWithin viewport := by
  intro call hcall
  obtain ⟨hwidth, hheight⟩ := Frame.three_le_of_ofViewport? hframe
  simp only [park, List.mem_cons, List.not_mem_nil, or_false] at hcall
  rcases hcall with rfl | rfl
  · exact ⟨Nat.lt_of_lt_of_le (by decide) hwidth, Nat.lt_of_lt_of_le (by decide) hheight⟩
  · trivial

/-- Whatever a board is asked to draw, the caret stays in the viewport. -/
theorem isWithin_of_mem_calls (hframe : Frame.ofViewport? viewport = some frame)
    {shown : Shown} {request : Request} :
    ∀ call ∈ request.calls frame shown, call.IsWithin viewport := by
  intro call hcall
  rw [Request.calls] at hcall
  split at hcall
  next => cases hcall
  next painting hpainting =>
    rcases List.mem_append.mp hcall with hpaint | hpark
    · exact isWithin_of_mem_painting hframe hpainting call hpaint
    · exact isWithin_of_mem_park hframe call hpark

end Board

end Captions
