import Captions.Board
import Captions.Proofs.Board.Shown

/-! # Marks on the record

Whatever is done to a board puts a text on the record, takes one away or leaves the record as it
is. Whether and where a text stands is decided by the last mark that is about it.
-/

namespace Captions

/-- What a deed did to the record of a board. -/
inductive Mark where
  | drawn (text : String) (placement : Placement)
  | wiped (text : String)
  | kept
deriving DecidableEq, Repr

namespace Mark

/-- The record after a deed. -/
def apply : Mark → Shown → Shown
  | drawn text placement, shown => shown.insert text placement
  | wiped text, shown => shown.erase text
  | kept, shown => shown

/-- Whether the mark settles if and where a text stands. -/
def Concerns (text : String) : Mark → Prop
  | drawn other _ => other = text
  | wiped other => other = text
  | kept => False

theorem find?_apply_of_not_concerns {mark : Mark} {text : String} (hmark : ¬ mark.Concerns text)
    (shown : Shown) : (mark.apply shown).find? text = shown.find? text := by
  cases mark with
  | drawn other placement => rw [apply, Shown.find?_insert, if_neg (Ne.symm hmark)]
  | wiped other => rw [apply, Shown.find?_erase, if_neg (Ne.symm hmark)]
  | kept => rfl

theorem find?_apply_of_concerns {mark : Mark} {text : String} (hmark : mark.Concerns text)
    {shown : Shown} {placement : Placement} :
    (mark.apply shown).find? text = some placement ↔ mark = .drawn text placement := by
  cases mark with
  | drawn other place =>
      cases hmark
      simp [apply]
  | wiped other =>
      cases hmark
      simp [apply]
  | kept => cases hmark

theorem isSorted_apply (mark : Mark) {shown : Shown} (hsorted : shown.IsSorted) :
    (mark.apply shown).IsSorted := by
  cases mark with
  | drawn text placement => exact hsorted.insert text placement
  | wiped text => exact hsorted.erase text
  | kept => exact hsorted

/-- The record after several deeds. -/
def applyAll (shown : Shown) (marks : List Mark) : Shown :=
  marks.foldl (fun shown mark => mark.apply shown) shown

variable {marks : List Mark} {text : String} {placement : Placement}

theorem find?_applyAll_of_not_concerns {shown : Shown}
    (hothers : ∀ mark ∈ marks, ¬ mark.Concerns text) :
    (applyAll shown marks).find? text = shown.find? text := by
  induction marks generalizing shown with
  | nil => rfl
  | cons mark rest ih =>
      obtain ⟨hfirst, hrest⟩ := List.forall_mem_cons.mp hothers
      exact (ih hrest).trans (find?_apply_of_not_concerns hfirst shown)

/-- A text that stands stood there before, or some mark put it there, and no later one is about
it. -/
theorem exists_of_find?_applyAll {shown : Shown}
    (hplace : (applyAll shown marks).find? text = some placement) :
    (shown.find? text = some placement ∧ ∀ mark ∈ marks, ¬ mark.Concerns text) ∨
      ∃ before after, marks = before ++ .drawn text placement :: after ∧
        ∀ mark ∈ after, ¬ mark.Concerns text := by
  induction marks generalizing shown with
  | nil => exact .inl ⟨hplace, nofun⟩
  | cons mark rest ih =>
      rcases ih hplace with ⟨hnext, hrest⟩ | ⟨before, after, rfl, hafter⟩
      · by_cases hmark : mark.Concerns text
        · have hdrawn := (find?_apply_of_concerns hmark).mp hnext
          exact .inr ⟨[], rest, by simp [hdrawn], hrest⟩
        · rw [find?_apply_of_not_concerns hmark] at hnext
          exact .inl ⟨hnext, List.forall_mem_cons.mpr ⟨hmark, hrest⟩⟩
      · exact .inr ⟨mark :: before, after, rfl, hafter⟩

/-- A text stands where the last mark that is about it put it. -/
theorem find?_applyAll_eq_some_iff :
    (applyAll {} marks).find? text = some placement ↔
      ∃ before after, marks = before ++ .drawn text placement :: after ∧
        ∀ mark ∈ after, ¬ mark.Concerns text := by
  constructor
  · intro hplace
    refine (exists_of_find?_applyAll hplace).resolve_left ?_
    simp
  · rintro ⟨before, after, rfl, hafter⟩
    have hconcerns : (drawn text placement).Concerns text := rfl
    rw [applyAll, List.foldl_append]
    exact (find?_applyAll_of_not_concerns hafter).trans
      ((find?_apply_of_concerns hconcerns).mpr rfl)

end Mark

namespace Board

variable {δ : Type} [Display δ]

/-- Whether the display takes some calls. -/
def accepts (calls : List Call) (board : Board δ) : Bool :=
  (carryOut calls board.display).1 = .done

theorem shown_draw (calls : List Call) (change : Shown → Shown) (board : Board δ) :
    (board.draw calls change).2.shown =
      if board.accepts calls then change board.shown else board.shown := by
  unfold draw accepts
  split
  next display hcalls => simp [hcalls]
  next status display hne hcalls =>
    rw [hcalls]
    have hstatus : status ≠ .done := hne
    simp [hstatus]

theorem draw_ne_done {calls : List Call} {board : Board δ} (h : ¬ board.accepts calls)
    (change : Shown → Shown) : (board.draw calls change).1 ≠ .done := by
  unfold draw
  split
  next display hcalls => simp [accepts, hcalls] at h
  next status display hne hcalls => exact hne

end Board

end Captions
