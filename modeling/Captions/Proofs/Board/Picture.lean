import Captions.Proofs.Board.Border
import Captions.Proofs.Board.Requests

/-! # The picture and the record

The calls that a board has made, carried out on an empty screen, give the picture that its
record describes, as long as no text is drawn over another one and a text that is shown
already is only drawn again where it stands.
-/

namespace Captions

/-- The cells of a viewport that a text covers that starts at a position. -/
def Viewport.reach (viewport : Viewport) (position : Position) (length : Nat) : List Cell :=
  (position.stretch length).filter viewport.covers

/-- The cells of the viewport that a text covers when it is placed somewhere. -/
def Frame.span (frame : Frame) (placement : Placement) (text : String) : List Cell :=
  frame.viewport.reach (frame.layout placement text.length) text.length

theorem Frame.mem_span {frame : Frame} {placement : Placement} {text : String} {i : Nat}
    {char : Char} (hchar : text.toList[i]? = some char)
    (hcovers : frame.viewport.covers ⟨(frame.layout placement text.length).column.toNat + i,
      (frame.layout placement text.length).row.toNat⟩) :
    ⟨(frame.layout placement text.length).column.toNat + i,
      (frame.layout placement text.length).row.toNat⟩ ∈ frame.span placement text := by
  have hi := (List.getElem?_eq_some_iff.mp hchar).1
  rw [String.length_toList] at hi
  exact List.mem_filter.mpr ⟨List.mem_map.mpr ⟨i, List.mem_range.mpr hi, rfl⟩, hcovers⟩

theorem Board.length_blank (length : Nat) : (blank length).length = length := by
  rw [blank, String.length_ofList, List.length_replicate]

namespace Screen

/-- The screen after some calls. -/
def replay (screen : Screen) (calls : List Call) : Screen :=
  calls.foldl apply screen

theorem replay_append (screen : Screen) (calls others : List Call) :
    screen.replay (calls ++ others) = (screen.replay calls).replay others :=
  List.foldl_append

theorem glyph?_eq_none_iff {position : Position} {text : List Char} {cell : Cell} :
    glyph? position.cell text cell = none ↔ cell ∉ position.stretch text.length := by
  have hrow : position.cell.row = position.row.toNat := rfl
  have hcolumn : position.cell.column = position.column.toNat := rfl
  rw [glyph?, Position.mem_stretch, ← hrow, ← hcolumn]
  by_cases hreached : cell.row = position.cell.row ∧ position.cell.column ≤ cell.column
  · rw [if_pos hreached, List.getElem?_eq_none_iff]
    omega
  · rw [if_neg hreached]
    refine iff_of_true rfl ?_
    omega

/-- The screen after a text was drawn. -/
def drawn (screen : Screen) (position : Position) (text : String) (color : Color) : Screen :=
  screen.replay (Board.paintAt position text color ++ Board.park)

section Drawn

variable {screen : Screen} {position : Position} {text : String} {color : Color} {cell : Cell}

theorem caret_drawn : (screen.drawn position text color).caret = ⟨0, 0⟩ := rfl

theorem viewport_drawn : (screen.drawn position text color).viewport = screen.viewport := rfl

theorem cells_drawn : (screen.drawn position text color).cells cell =
    if screen.viewport.covers cell then
      (glyph? position.cell text.toList cell).getD (screen.cells cell)
    else screen.cells cell := rfl

theorem cells_drawn_of_notMem (hcell : cell ∉ screen.viewport.reach position text.length) :
    (screen.drawn position text color).cells cell = screen.cells cell := by
  rw [cells_drawn]
  split
  next hcovers =>
    have hstretch : cell ∉ position.stretch text.length := by
      intro hmem
      exact hcell (List.mem_filter.mpr ⟨hmem, hcovers⟩)
    rw [← String.length_toList] at hstretch
    rw [glyph?_eq_none_iff.mpr hstretch, Option.getD_none]
  next => rfl

/-- Each character of a text stands in its own cell if that belongs to the viewport. -/
theorem cells_drawn_of_covers {i : Nat} {char : Char} (hchar : text.toList[i]? = some char)
    (hcovers : screen.viewport.covers ⟨position.column.toNat + i, position.row.toNat⟩) :
    (screen.drawn position text color).cells ⟨position.column.toNat + i, position.row.toNat⟩ =
      char := by
  have hglyph : glyph? position.cell text.toList
      ⟨position.column.toNat + i, position.row.toNat⟩ = some char := by
    rw [← hchar]
    exact (glyph?_start position.cell text.toList position.row.toNat i).trans (if_pos rfl)
  rw [cells_drawn, if_pos hcovers, hglyph, Option.getD_some]

/-- Where blanks were drawn there is nothing any more. -/
theorem cells_drawn_blank {length : Nat} (hcell : cell ∈ screen.viewport.reach position length) :
    (screen.drawn position (Board.blank length) color).cells cell = ' ' := by
  obtain ⟨hstretch, hcovers⟩ := List.mem_filter.mp hcell
  obtain ⟨i, hi, rfl⟩ := List.mem_map.mp hstretch
  refine cells_drawn_of_covers ?_ hcovers
  rw [Board.blank, String.toList_ofList, List.getElem?_replicate_of_lt (List.mem_range.mp hi)]

end Drawn

/-- The screen shows the texts of a record, each where it is recorded and as far as it fits
in the viewport, and nothing else. -/
structure Depicts (screen : Screen) (frame : Frame) (shown : Shown) : Prop where
  viewport : screen.viewport = frame.viewport
  caret : screen.caret = ⟨0, 0⟩
  reads : ∀ (text : String) (placement : Placement), shown.find? text = some placement →
    ∀ (i : Nat) (char : Char), text.toList[i]? = some char →
      frame.viewport.covers ⟨(frame.layout placement text.length).column.toNat + i,
        (frame.layout placement text.length).row.toNat⟩ →
      screen.cells ⟨(frame.layout placement text.length).column.toNat + i,
        (frame.layout placement text.length).row.toNat⟩ = char
  blank : ∀ cell, (∀ (text : String) (placement : Placement),
    shown.find? text = some placement → cell ∉ frame.span placement text) →
    screen.cells cell = ' '

end Screen

/-- No two texts of the record cover the same cell of the viewport. -/
def Shown.Apart (shown : Shown) (frame : Frame) : Prop :=
  ∀ (text other : String) (placement place : Placement), shown.find? text = some placement →
    shown.find? other = some place → text ≠ other →
    ∀ cell ∈ frame.span placement text, cell ∉ frame.span place other

namespace Screen.Depicts

variable {screen : Screen} {frame : Frame} {shown : Shown} {text : String} {placement : Placement}

theorem blank_empty (frame : Frame) : (Screen.blank frame.viewport).Depicts frame {} where
  viewport := rfl
  caret := rfl
  reads := nofun
  blank := fun _ _ => rfl

/-- Where a text has room, drawing it changes the picture as it changes the record. -/
theorem insert (hdepicts : screen.Depicts frame shown) (color : Color)
    (hroom : ∀ (other : String) (place : Placement), shown.find? other = some place →
      other ≠ text → ∀ cell ∈ frame.span placement text, cell ∉ frame.span place other)
    (hagain : ∀ place, shown.find? text = some place → place = placement) :
    (screen.drawn (frame.layout placement text.length) text color).Depicts frame
      (shown.insert text placement) := by
  have hviewport := hdepicts.viewport
  refine ⟨viewport_drawn.trans hviewport, caret_drawn, ?_, ?_⟩
  · intro other place hplace i char hchar hcovers
    rw [Shown.find?_insert] at hplace
    by_cases hsame : other = text
    · subst hsame
      rw [if_pos rfl] at hplace
      cases hplace
      exact cells_drawn_of_covers hchar (hviewport ▸ hcovers)
    · rw [if_neg hsame] at hplace
      rw [cells_drawn_of_notMem, hdepicts.reads other place hplace i char hchar hcovers]
      rw [hviewport]
      intro hmem
      exact hroom other place hplace hsame _ hmem (Frame.mem_span hchar hcovers)
  · intro cell hcell
    have hnew : cell ∉ frame.span placement text := by
      refine hcell text placement ?_
      rw [Shown.find?_insert, if_pos rfl]
    rw [cells_drawn_of_notMem (hviewport ▸ hnew)]
    refine hdepicts.blank cell ?_
    intro other place hplace
    by_cases hsame : other = text
    · subst hsame
      rw [hagain place hplace]
      exact hnew
    · refine hcell other place ?_
      rw [Shown.find?_insert, if_neg hsame, hplace]

/-- Blanks over a text change the picture as erasing it changes the record. -/
theorem erase (hdepicts : screen.Depicts frame shown) (hapart : shown.Apart frame)
    (hplace : shown.find? text = some placement) (color : Color) :
    (screen.drawn (frame.layout placement text.length) (Board.blank text.length) color).Depicts
      frame (shown.erase text) := by
  have hviewport := hdepicts.viewport
  have hothers : ∀ cell ∉ frame.span placement text,
      (screen.drawn (frame.layout placement text.length) (Board.blank text.length) color).cells
        cell = screen.cells cell := by
    intro cell hcell
    refine cells_drawn_of_notMem ?_
    rw [Board.length_blank, hviewport]
    exact hcell
  refine ⟨viewport_drawn.trans hviewport, caret_drawn, ?_, ?_⟩
  · intro other place hother i char hchar hcovers
    rw [Shown.find?_erase] at hother
    split at hother
    next => cases hother
    next hne =>
      rw [hothers, hdepicts.reads other place hother i char hchar hcovers]
      exact hapart other text place placement hother hplace hne _ (Frame.mem_span hchar hcovers)
  · intro cell hcell
    by_cases hmem : cell ∈ frame.span placement text
    · exact cells_drawn_blank (hviewport ▸ hmem)
    · rw [hothers cell hmem]
      refine hdepicts.blank cell ?_
      intro other place hother
      by_cases hsame : other = text
      · subst hsame
        rw [hplace] at hother
        cases hother
        exact hmem
      · refine hcell other place ?_
        rw [Shown.find?_erase, if_neg hsame, hother]

end Screen.Depicts

namespace Shown.Apart

variable {shown : Shown} {frame : Frame} {text : String} {placement : Placement}

theorem empty (frame : Frame) : Shown.Apart {} frame := by
  intro text other placement place hplace
  cases hplace

theorem insert (hapart : shown.Apart frame)
    (hroom : ∀ (other : String) (place : Placement), shown.find? other = some place →
      other ≠ text → ∀ cell ∈ frame.span placement text, cell ∉ frame.span place other) :
    (shown.insert text placement).Apart frame := by
  intro first second place place' hfirst hsecond hne cell hmem hmem'
  rw [Shown.find?_insert] at hfirst hsecond
  split at hfirst
  next heq =>
    cases hfirst
    rw [if_neg (fun hsame => hne (heq.trans hsame.symm))] at hsecond
    subst heq
    exact hroom second place' hsecond (Ne.symm hne) cell hmem hmem'
  next hfirstNe =>
    split at hsecond
    next heq =>
      cases hsecond
      subst heq
      exact hroom first place hfirst hne cell hmem' hmem
    next => exact hapart first second place place' hfirst hsecond hne cell hmem hmem'

theorem erase (hapart : shown.Apart frame) (text : String) : (shown.erase text).Apart frame := by
  intro first second place place' hfirst hsecond
  rw [Shown.find?_erase] at hfirst hsecond
  split at hfirst
  next => cases hfirst
  next =>
    split at hsecond
    next => cases hsecond
    next => exact hapart first second place place' hfirst hsecond

end Shown.Apart

/-- A text is drawn only where no other text of the record stands in its way, and if it is
recorded already, only where it stands. -/
def Operation.FindsRoom (frame : Frame) (shown : Shown) : Operation → Prop
  | .showText placement _ text =>
    ∀ other ∈ shown.texts, ∀ place ∈ shown.find? other,
      if other = text then place = placement
      else ∀ cell ∈ frame.span placement text, cell ∉ frame.span place other
  | .hideText _ => True

instance (frame : Frame) (shown : Shown) (operation : Operation) :
    Decidable (operation.FindsRoom frame shown) :=
  match operation with
  | .showText placement _ text =>
    inferInstanceAs (Decidable (∀ other ∈ shown.texts, ∀ place ∈ shown.find? other,
      if other = text then place = placement
      else ∀ cell ∈ frame.span placement text, cell ∉ frame.span place other))
  | .hideText _ => inferInstanceAs (Decidable True)

namespace Board

section Operate

variable {δ : Type} [Display δ]

/-- The board after some operations. -/
def operateAll (board : Board δ) (operations : List Operation) : Board δ :=
  operations.foldl (fun board operation => (board.operate operation).board) board

/-- The operations succeed one after the other, and each of them finds room. -/
def Orderly (board : Board δ) : List Operation → Prop
  | [] => True
  | operation :: rest =>
    (∃ changed, (board.operate operation).outcome = .done changed) ∧
      operation.FindsRoom board.frame board.shown ∧
      (board.operate operation).board.Orderly rest

instance decidableOrderly (board : Board δ) :
    (operations : List Operation) → Decidable (board.Orderly operations)
  | [] => inferInstanceAs (Decidable True)
  | operation :: rest =>
    have := decidableOrderly (board.operate operation).board rest
    inferInstanceAs (Decidable (_ ∧ _ ∧ _))

theorem frame_operateAll (board : Board δ) (operations : List Operation) :
    (board.operateAll operations).frame = board.frame := by
  induction operations generalizing board with
  | nil => rfl
  | cons operation rest ih => exact (ih _).trans (board.frame_operate operation)

theorem Orderly.of_append {board : Board δ} {first second : List Operation}
    (horderly : board.Orderly (first ++ second)) : board.Orderly first := by
  induction first generalizing board with
  | nil => trivial
  | cons operation rest ih => exact ⟨horderly.1, horderly.2.1, ih horderly.2.2⟩

theorem status_of_outcome {status : Status} {changed : Bool}
    (houtcome : Outcome.ofStatus status = .done changed) : status = .done := by
  cases status with
  | done => rfl
  | refused | broken => cases houtcome

end Operate

/-- The screen on which the calls of a recorder have been carried out, from an empty one on. -/
def picture (board : Board Recorder) : Screen :=
  (Screen.blank board.frame.viewport).replay board.display.calls.toList

/-- The picture of the board is what its record describes. -/
structure Matches (board : Board Recorder) : Prop where
  depicts : board.picture.Depicts board.frame board.shown
  apart : board.shown.Apart board.frame

/-- A board with nothing on it, and a recorder that has written nothing down. -/
def empty (frame : Frame) (health : Health) : Board Recorder :=
  ⟨frame, { health }, {}⟩

theorem matches_empty (frame : Frame) (health : Health) : (empty frame health).Matches where
  depicts := Screen.Depicts.blank_empty frame
  apart := Shown.Apart.empty frame

theorem picture_draw_of_done {board : Board Recorder} {position : Position} {text : String}
    {color : Color} {change : Shown → Shown}
    (hdone : (board.draw (paintAt position text color) change).1 = .done) :
    (board.draw (paintAt position text color) change).2.picture =
      board.picture.drawn position text color := by
  rw [status_draw] at hdone
  rw [picture, frame_draw, display_draw, Recorder.calls_carryOut_of_done hdone,
    Array.toList_appendList, Screen.replay_append]
  rfl

namespace Matches

variable {board : Board Recorder}

theorem showText (hmatches : board.Matches) {placement : Placement} {color : Color} {text : String}
    {changed : Bool} (houtcome : (board.showText placement color text).outcome = .done changed)
    (hroom : Operation.FindsRoom board.frame board.shown (.showText placement color text)) :
    (board.showText placement color text).board.Matches := by
  have hdone := status_of_outcome houtcome
  have hothers : ∀ (other : String) (place : Placement), board.shown.find? other = some place →
      if other = text then place = placement
      else ∀ cell ∈ board.frame.span placement text, cell ∉ board.frame.span place other := by
    intro other place hplace
    refine hroom other ?_ place hplace
    exact Shown.mem_texts.mpr (hplace ▸ Option.some_ne_none place)
  have happart : ∀ (other : String) (place : Placement), board.shown.find? other = some place →
      other ≠ text → ∀ cell ∈ board.frame.span placement text,
        cell ∉ board.frame.span place other := by
    intro other place hplace hne
    have hother := hothers other place hplace
    rwa [if_neg hne] at hother
  have hagain : ∀ place, board.shown.find? text = some place → place = placement := by
    intro place hplace
    have hsame := hothers text place hplace
    rwa [if_pos rfl] at hsame
  refine ⟨?_, ?_⟩
  · rw [Board.showText, picture_draw_of_done hdone, frame_draw, shown_draw_of_done hdone]
    exact hmatches.depicts.insert color happart hagain
  · rw [Board.showText, frame_draw, shown_draw_of_done hdone]
    exact hmatches.apart.insert happart

theorem hideText (hmatches : board.Matches) {text : String} {changed : Bool}
    (houtcome : (board.hideText text).outcome = .done changed) :
    (board.hideText text).board.Matches := by
  rw [Board.hideText] at houtcome ⊢
  split at houtcome
  next => exact hmatches
  next placement hplace =>
    have hdone := status_of_outcome houtcome
    refine ⟨?_, ?_⟩
    · rw [picture_draw_of_done hdone, frame_draw, shown_draw_of_done hdone]
      exact hmatches.depicts.erase hmatches.apart hplace .default
    · rw [frame_draw, shown_draw_of_done hdone]
      exact hmatches.apart.erase text

/-- An operation that succeeds and finds room keeps picture and record together. -/
theorem operate (hmatches : board.Matches) {operation : Operation}
    (hdone : ∃ changed, (board.operate operation).outcome = .done changed)
    (hroom : operation.FindsRoom board.frame board.shown) :
    (board.operate operation).board.Matches := by
  obtain ⟨changed, houtcome⟩ := hdone
  cases operation with
  | showText placement color text => exact hmatches.showText houtcome hroom
  | hideText text => exact hmatches.hideText houtcome

theorem operateAll (hmatches : board.Matches) {operations : List Operation}
    (horderly : board.Orderly operations) : (board.operateAll operations).Matches := by
  induction operations generalizing board with
  | nil => exact hmatches
  | cons operation rest ih =>
      obtain ⟨hdone, hroom, hrest⟩ := horderly
      exact ih (hmatches.operate hdone hroom) hrest

end Matches

/-- After each of some orderly operations on an empty board, the calls made so far show on an
empty screen what the record says. -/
theorem picture_depicts_shown {frame : Frame} {health : Health} {operations : List Operation}
    (horderly : (empty frame health).Orderly operations) {past rest : List Operation}
    (hpast : operations = past ++ rest) :
    ((empty frame health).operateAll past).picture.Depicts frame
      ((empty frame health).operateAll past).shown := by
  subst hpast
  have hmatches := (matches_empty frame health).operateAll horderly.of_append
  have hdepicts := hmatches.depicts
  rw [frame_operateAll] at hdepicts
  exact hdepicts

theorem picture_depicts_shown_failing_later :
    (empty ⟨⟨80, 24⟩, 20, 6, 59, 17⟩ (.failingAfter 16)).Orderly
      [.showText .top .red "Hello World", .showText .left .white "Here",
        .showText .top .white "Hello World", .hideText "Here", .hideText "Nowhere"] ∧
      ((empty ⟨⟨80, 24⟩, 20, 6, 59, 17⟩ (.failingAfter 16)).operateAll
        [.showText .top .red "Hello World", .showText .left .white "Here",
          .showText .top .white "Hello World", .hideText "Here"]).picture.cells ⟨41, 6⟩ = 'W' := by
  have horderly : (empty ⟨⟨80, 24⟩, 20, 6, 59, 17⟩ (.failingAfter 16)).Orderly
      [.showText .top .red "Hello World", .showText .left .white "Here",
        .showText .top .white "Hello World", .hideText "Here", .hideText "Nowhere"] := by
    decide +kernel
  have hsplit : [Operation.showText .top .red "Hello World", .showText .left .white "Here",
      .showText .top .white "Hello World", .hideText "Here", .hideText "Nowhere"] =
      [.showText .top .red "Hello World", .showText .left .white "Here",
        .showText .top .white "Hello World", .hideText "Here"] ++ [.hideText "Nowhere"] := rfl
  have hdepicts := picture_depicts_shown horderly hsplit
  exact ⟨horderly, hdepicts.reads "Hello World" .top (by decide) 6 'W' (by decide) (by decide)⟩

end Board

end Captions
