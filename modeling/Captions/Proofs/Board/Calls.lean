import Captions.Board
import Captions.Display.Recorder

/-! # The calls of a drawing

A drawing asks the display for the calls that change the picture and then for those that
park the caret. It ends as these calls end, and a recorder has written them all down if
they were done.
-/

namespace Captions

theorem carryOut_append_of_done {δ : Type} [Display δ] {first : List Call} {display : δ}
    (hdone : (carryOut first display).1 = .done) (second : List Call) :
    carryOut (first ++ second) display = carryOut second (carryOut first display).2 := by
  rw [carryOut_append]
  generalize carryOut first display = ended at hdone ⊢
  obtain ⟨status, next⟩ := ended
  subst hdone
  rfl

namespace Recorder

variable {recorder : Recorder}

theorem calls_perform_of_done {call : Call} (hdone : (recorder.perform call).1 = .done) :
    (recorder.perform call).2.calls = recorder.calls.push call := by
  obtain ⟨written, health⟩ := recorder
  cases health with
  | working => rfl
  | failingAfter left =>
      cases left with
      | zero => cases hdone
      | succ left => rfl
  | breaking => cases hdone

/-- A recorder writes down the calls that it has carried out. -/
theorem calls_carryOut_of_done {calls : List Call} (hdone : (carryOut calls recorder).1 = .done) :
    (carryOut calls recorder).2.calls = recorder.calls ++ calls := by
  induction calls generalizing recorder with
  | nil => simp
  | cons call rest ih =>
      rw [carryOut] at hdone ⊢
      split at hdone
      next next hcall =>
        have hfirst : (recorder.perform call).2.calls = recorder.calls.push call :=
          calls_perform_of_done (congrArg Prod.fst hcall)
        have hnext : (recorder.perform call).2 = next := congrArg Prod.snd hcall
        rw [hnext] at hfirst
        rw [ih hdone, hfirst]
        simp
      next hstopped => exact absurd hdone (fun hdone => hstopped _ (Prod.ext hdone rfl))

/-- A call that is not done leaves no trace. -/
theorem calls_perform_of_ne_done {call : Call} (hfails : (recorder.perform call).1 ≠ .done) :
    (recorder.perform call).2.calls = recorder.calls := by
  obtain ⟨written, health⟩ := recorder
  cases health with
  | working => exact absurd rfl hfails
  | failingAfter left =>
      cases left with
      | zero => rfl
      | succ left => exact absurd rfl hfails
  | breaking => rfl

/-- A recorder writes down the calls up to the first that is not done. -/
theorem exists_calls_carryOut (calls : List Call) (recorder : Recorder) :
    ∃ made, made <+: calls ∧
      (carryOut calls recorder).2.calls.toList = recorder.calls.toList ++ made := by
  induction calls generalizing recorder with
  | nil => exact ⟨[], List.prefix_rfl, (List.append_nil _).symm⟩
  | cons call rest ih =>
      rw [carryOut]
      split
      next next hcall =>
        have hfirst : (recorder.perform call).2.calls = recorder.calls.push call :=
          calls_perform_of_done (congrArg Prod.fst hcall)
        have hnext : (recorder.perform call).2 = next := congrArg Prod.snd hcall
        obtain ⟨made, hmade, htape⟩ := ih next
        refine ⟨call :: made, (List.prefix_cons_inj call).mpr hmade, ?_⟩
        rw [htape, ← hnext, hfirst, Array.toList_push, List.append_assoc]
        rfl
      next hstopped =>
        refine ⟨[], List.nil_prefix, ?_⟩
        have hfails : (recorder.perform call).1 ≠ .done := fun hdone =>
          hstopped _ (Prod.ext hdone rfl)
        have htape : (Display.perform call recorder).2.calls = recorder.calls :=
          calls_perform_of_ne_done hfails
        rw [htape, List.append_nil]

/-- Calls that are done stay written down, whatever is asked for after them. -/
theorem mem_calls_carryOut_append {first : List Call} (hdone : (carryOut first recorder).1 = .done)
    (second : List Call) {call : Call} (hcall : call ∈ first) :
    call ∈ (carryOut (first ++ second) recorder).2.calls.toList := by
  obtain ⟨made, _, htape⟩ := exists_calls_carryOut second (carryOut first recorder).2
  rw [carryOut_append_of_done hdone, htape, calls_carryOut_of_done hdone,
    Array.toList_appendList]
  exact List.mem_append_left made (List.mem_append_right _ hcall)

end Recorder

namespace Board

/-- Changes the display of a board. -/
def mapDisplay {δ : Type} (f : δ → δ) (board : Board δ) : Board δ :=
  { board with display := f board.display }

variable {δ : Type} [Display δ]

/-- A drawing ends as its calls end, and leaves the display as they leave it. -/
theorem draw_eq_carryOut (calls : List Call) (change : Shown → Shown) (board : Board δ) :
    ((board.draw calls change).1, (board.draw calls change).2.display) =
      carryOut (calls ++ park) board.display := by
  rw [carryOut_append, draw]
  generalize carryOut calls board.display = ended
  obtain ⟨status, display⟩ := ended
  cases status with
  | done => rfl
  | refused fault => rfl
  | broken => rfl

theorem status_draw (calls : List Call) (change : Shown → Shown) (board : Board δ) :
    (board.draw calls change).1 = (carryOut (calls ++ park) board.display).1 :=
  congrArg Prod.fst (board.draw_eq_carryOut calls change)

theorem display_draw (calls : List Call) (change : Shown → Shown) (board : Board δ) :
    (board.draw calls change).2.display = (carryOut (calls ++ park) board.display).2 :=
  congrArg Prod.snd (board.draw_eq_carryOut calls change)

theorem frame_draw (calls : List Call) (change : Shown → Shown) (board : Board δ) :
    (board.draw calls change).2.frame = board.frame := by
  unfold draw
  split
  next => rfl
  next => rfl

/-- If all calls are done, the record has changed. -/
theorem shown_draw_of_done {calls : List Call} {change : Shown → Shown} {board : Board δ}
    (hdone : (board.draw calls change).1 = .done) :
    (board.draw calls change).2.shown = change board.shown := by
  rw [draw] at hdone ⊢
  generalize carryOut calls board.display = ended at hdone ⊢
  obtain ⟨status, display⟩ := ended
  cases status with
  | done => rfl
  | refused fault => cases hdone
  | broken => cases hdone

end Board

end Captions
