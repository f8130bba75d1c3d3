import Captions.Proofs.Agenda.Omission
import Captions.Proofs.Session.Leftover
import Captions.Proofs.Session.Pictures

/-! # Scripts without a cue

A script from which the line of a cue is struck out, and all that names the cue with it. If
nothing was ever drawn or erased for the cue, the pictures of the session are the same.
-/

namespace Captions

namespace Reading

/-- The lines of an input without the line of the cue that has `index` cues before it. -/
def withoutCue : Nat → List Text.LineRead → List Text.LineRead
  | _, [] => []
  | _, .error fault :: rest => .error fault :: rest
  | index, .ok line :: rest =>
    match (ofLines [.ok line]).cues, index with
    | [], index => .ok line :: withoutCue index rest
    | _ :: _, 0 => rest
    | _ :: _, index + 1 => .ok line :: withoutCue index rest

/-- Just that cue is gone. -/
theorem cues_withoutCue (index : Nat) (lines : List Text.LineRead) :
    (ofLines (withoutCue index lines)).cues = (ofLines lines).cues.eraseIdx index := by
  induction lines generalizing index with
  | nil => rfl
  | cons first rest ih =>
      cases first with
      | error fault => rfl
      | ok line =>
          have hlength := length_cues_singleton line
          cases hcues : (ofLines [.ok line]).cues with
          | nil => simp only [withoutCue, hcues, cues_cons, ih, List.nil_append]
          | cons cue others =>
              rw [hcues, List.length_cons, Nat.succ_le_succ_iff, Nat.le_zero] at hlength
              rw [List.length_eq_zero_iff.mp hlength] at hcues
              cases index with
              | zero => simp only [withoutCue, hcues, cues_cons, List.singleton_append,
                  List.eraseIdx_cons_zero]
              | succ index => simp only [withoutCue, hcues, cues_cons, ih, List.singleton_append,
                  List.eraseIdx_cons_succ]

end Reading

namespace Session

/-- A step of a script from which the cue numbered `id` is struck out; `next` is the number
of the next cue. -/
def Step.without (id next : Nat) : Step → List Step
  | .schedule line =>
    match Cue.parse line with
    | .ok _ => if next = id then [] else [.schedule line]
    | .error _ => [.schedule line]
  | .ingest lines =>
    [.ingest (if next ≤ id then Reading.withoutCue (id - next) lines else lines)]
  | .cancel other => if other = id then [] else [.cancel (Agenda.renumber id other)]
  | step => [step]

/-- The steps of a script without the cue numbered `id`, where the first cue is numbered
`next`: its line and all its cancellations are struck out, and the numbers of the cues after
it are lower by one. -/
def withoutCue (id next : Nat) : List Step → List Step
  | [] => []
  | first :: rest => first.without id next ++ withoutCue id (next + first.cues.length) rest

theorem withoutCue_concat (id next : Nat) (past : List Step) (step : Step) :
    withoutCue id next (past ++ [step]) =
      withoutCue id next past ++ step.without id (next + (scheduled past).length) := by
  induction past generalizing next with
  | nil => exact List.append_nil _
  | cons first rest ih =>
      rw [List.cons_append, withoutCue, ih, withoutCue, List.append_assoc, scheduled, scheduled,
        List.flatMap_cons, List.length_append, Nat.add_assoc]

/-- A session without one of its cues, before its next step. -/
def without (id : Nat) (session : Session Recorder) : Session Recorder :=
  { session.mapDisplay Recorder.rewind with agenda := session.agenda.without id }

end Session

/-- Nothing was drawn or erased by the deed: the cue is not drawable, or the text was not
there. -/
def Deed.IsIdle (deed : Deed) : Prop :=
  match deed.trigger.action with
  | .showCue cue => ¬ cue.IsDrawable
  | .hideText text => .nothingToHide text ∈ deed.events

namespace Session

section Idle

variable {δ : Type} [Display δ] {session : Session δ}

theorem find?_eq_none_of_nothingToHide {text : String}
    (hevent : .nothingToHide text ∈ (session.act (.hideText text)).1) :
    session.board.shown.find? text = none := by
  by_contra hplace
  obtain ⟨placement, hplace⟩ := Option.ne_none_iff_exists'.mp hplace
  simp only [act, Board.hideText, hplace, settle] at hevent
  split at hevent
  next => simp at hevent
  next => simp at hevent
  next => simp at hevent

/-- An idle deed leaves the session as it is. -/
theorem act_of_isIdle {trigger : Trigger}
    (hidle : Deed.IsIdle
      ⟨trigger, session.mark trigger.action, (session.act trigger.action).1⟩) :
    (session.act trigger.action).2 = session := by
  refine act_of_calls_eq_nil ?_
  unfold Deed.IsIdle at hidle
  split at hidle
  next cue haction =>
    dsimp only at haction
    rw [haction, Action.calls]
    cases hcolor : Color.resolve cue.color with
    | ok color => exact absurd (Cue.exists_resolve_eq_ok.mp ⟨color, hcolor⟩) hidle
    | error error => rfl
  next text haction =>
    dsimp only at haction hidle
    rw [haction] at hidle ⊢
    rw [Action.calls, find?_eq_none_of_nothingToHide hidle]

/-- Without a cue for which nothing is drawn or erased, the same is carried out. -/
theorem actAll_without {id : Nat} {triggers : List Trigger}
    (hidle : ∀ deed ∈ session.deeds triggers, deed.trigger.cue = id → deed.IsIdle) :
    (session.actAll (Trigger.without id triggers)).2 = (session.actAll triggers).2 := by
  induction triggers generalizing session with
  | nil => rfl
  | cons trigger rest ih =>
      by_cases halive : session.alive
      · rw [deeds, if_pos halive] at hidle
        obtain ⟨hfirst, hrest⟩ := List.forall_mem_cons.mp hidle
        have hothers := ih hrest
        rw [actAll, if_pos halive]
        dsimp only
        by_cases hcue : trigger.cue = id
        · rw [act_of_isIdle (hfirst hcue)] at hothers ⊢
          rw [Trigger.without_cons_of_eq hcue]
          exact hothers
        · rw [Trigger.without_cons_of_ne hcue, actAll, if_pos halive]
          exact hothers
      · rw [actAll_of_not_alive halive, actAll_of_not_alive halive]

/-- What fires without a cue leaves the same board, if nothing was drawn or erased for it. -/
theorem board_advance_without {id time time' : Nat} {agenda : Agenda}
    (hidle : ∀ deed ∈ session.deeds (session.advance time).fired,
      deed.trigger.cue = id → deed.IsIdle)
    (hfired : (({ session with agenda } : Session δ).advance time').fired =
      Trigger.without id (session.advance time).fired) :
    (({ session with agenda } : Session δ).advance time').session.board =
        (session.advance time).session.board ∧
      (({ session with agenda } : Session δ).advance time').session.alive =
        (session.advance time).session.alive := by
  obtain ⟨_, hboard, halive⟩ := advance_eq_actAll session time
  obtain ⟨_, hboard', halive'⟩ := advance_eq_actAll ({ session with agenda } : Session δ) time'
  rw [hboard, hboard', halive, halive', hfired, actAll_with, actAll_without hidle]
  exact ⟨rfl, rfl⟩

end Idle

theorem Step.without_of_fires {step : Step} (hfires : step.fires) (id next : Nat) :
    step.without id next = [step] := by
  cases step with
  | advance | visible | finish => rfl
  | schedule | ingest | cancel | failAfter | crash => cases hfires

theorem mapDisplay_eq_without {id : Nat} {session other : Session Recorder}
    (hclock : other.clock = session.clock) (hagenda : other.agenda = session.agenda.without id)
    (hboard : other.board = session.board) (halive : other.alive = session.alive) :
    other.mapDisplay Recorder.rewind = session.without id := by
  simp only [without, mapDisplay, hclock, hagenda, hboard, halive]

theorem start_without (board : Board Recorder) (id : Nat) :
    (start board).mapDisplay Recorder.rewind = (start board).without id := by
  have hagenda : ({} : Agenda).without id = {} := by
    simp [Agenda.without, Agenda.renumber, Trigger.without]
  rw [without, start, hagenda]
  rfl

variable {id : Nat} {session other : Session Recorder} {step : Step}

/-- A step is struck out, or a step of the same kind is left of it. -/
theorem Step.without_cases (id next : Nat) (step : Step) :
    step.without id next = [] ∨ ∃ own, step.without id next = [own] ∧ own.fires = step.fires := by
  cases step with
  | schedule line =>
      rw [Step.without]
      split
      next => split <;> simp [Step.fires]
      next => exact .inr ⟨_, rfl, rfl⟩
  | cancel other =>
      rw [Step.without]
      split <;> simp [Step.fires]
  | ingest | advance | visible | failAfter | crash | finish => exact .inr ⟨_, rfl, rfl⟩

theorem pictures_without_of_not_fires (hquiet : ¬ step.fires) (id next : Nat) :
    session.pictures (step.without id next) = [] := by
  rcases step.without_cases id next with hnone | ⟨own, hone, hfires⟩
  · rw [hnone]
    rfl
  · rw [hone]
    exact pictures_of_not_fires (hfires ▸ hquiet)

/-- A step that does not fire changes the agenda without a cue as it does with the cue. -/
theorem play_without_of_not_fires (hother : other.mapDisplay Recorder.rewind = session.without id)
    (hquiet : ¬ step.fires) :
    (other.play (step.without id session.agenda.size)).mapDisplay Recorder.rewind =
      (session.step step).2.without id := by
  have hstep : ∀ own, other.play [own] = ((session.without id).perform own).2 := by
    intro own
    rw [play, play, Session.step, hother]
  have hagenda : ∀ first second : Agenda, first = second →
      ({ session.mapDisplay Recorder.rewind with agenda := first } : Session Recorder) =
        { session.mapDisplay Recorder.rewind with agenda := second } := by
    rintro first _ rfl
    rfl
  cases step with
  | schedule line =>
      rw [Session.step, perform, Step.without]
      cases hline : Cue.parse line with
      | ok cue =>
          by_cases hsize : session.agenda.size = id
          · rw [if_pos hsize, play, hother]
            exact hagenda _ _ (Agenda.without_arm_self hsize cue).symm
          · rw [if_neg hsize, hstep, perform, hline]
            exact hagenda _ _ (Agenda.without_arm hsize cue).symm
      | error error =>
          rw [hstep, perform, hline]
          rfl
  | ingest lines =>
      have hcues := Agenda.without_armAll id session.agenda (Reading.ofLines lines).cues
      rw [← Reading.cues_withoutCue,
        ← apply_ite (fun lines => (Reading.ofLines lines).cues)] at hcues
      rw [Step.without, hstep]
      generalize (if session.agenda.size ≤ id then
        Reading.withoutCue (id - session.agenda.size) lines else lines) = left at hcues ⊢
      have hleft : ((session.without id).perform (.ingest left)).2 = _ :=
        takeInAll_session (session.without id) (Reading.ofLines left).entries
      rw [step_ingest, hleft]
      exact hagenda _ _ hcues.symm
  | cancel number =>
      rw [Step.without]
      by_cases hnumber : number = id
      · rw [if_pos hnumber, play, hother, hnumber]
        exact hagenda _ _ (Agenda.without_cancel_self id session.agenda).symm
      · rw [if_neg hnumber, hstep]
        exact hagenda _ _ (Agenda.without_cancel hnumber session.agenda).symm
  | failAfter | crash => exact congrArg (mapDisplay Recorder.rewind) (hstep _)
  | advance | visible | finish => exact absurd rfl hquiet

/-- A step that fires moves the clock in the same way with a cue and without it. -/
theorem exists_advance_without {past : List Step} {fired : List Trigger}
    (hfollows : Follows past fired session)
    (hother : other.mapDisplay Recorder.rewind = session.without id) (hfires : step.fires) :
    ∃ time,
      (session.step step).1.fired = ((session.mapDisplay Recorder.rewind).advance time).fired ∧
      (session.step step).2 = ((session.mapDisplay Recorder.rewind).advance time).session ∧
      (other.step step).2 = ((session.without id).advance time).session := by
  cases step with
  | advance time =>
      rw [Session.step, Session.step, hother]
      exact ⟨time, rfl, rfl, rfl⟩
  | visible =>
      rw [Session.step, Session.step, hother]
      exact ⟨session.clock, rfl, rfl, rfl⟩
  | finish =>
      have hhorizon := Agenda.horizon_without id hfollows.due_le_last
      rw [Session.step, Session.step, hother]
      refine ⟨session.agenda.horizon, rfl, rfl, ?_⟩
      exact congrArg (fun time => ((session.without id).advance time).session) hhorizon
  | schedule | ingest | cancel | failAfter | crash => cases hfires

/-- A step that fires leaves the same board and shows the same with a cue and without it, if
nothing is drawn or erased for it. -/
theorem step_without_of_fires {past : List Step} {fired : List Trigger}
    (hfollows : Follows past fired session)
    (hother : other.mapDisplay Recorder.rewind = session.without id) (hfires : step.fires)
    (hidle : ∀ deed ∈ session.deedsOf step, deed.trigger.cue = id → deed.IsIdle) :
    other.pictures [step] = session.pictures [step] ∧
      (other.step step).2.mapDisplay Recorder.rewind = (session.step step).2.without id := by
  obtain ⟨time, hfired, hsession, hnext⟩ := exists_advance_without hfollows hother hfires
  obtain ⟨hleft, hagendas⟩ := hfollows.ledger.without_fire id (max session.clock time)
  rw [deedsOf, hfired] at hidle
  obtain ⟨hboard, halive⟩ : ((session.without id).advance time).session.board = _ ∧
    ((session.without id).advance time).session.alive = _ := board_advance_without hidle hleft
  rw [← hsession, ← hnext] at hboard halive
  refine ⟨?_, ?_⟩
  · rw [pictures_of_fires hfires, pictures_of_fires hfires, hboard, Step.view_congr hboard halive]
  · obtain ⟨_, hagenda, hclock⟩ := advance_session (session.mapDisplay Recorder.rewind)
      (rfl : max session.clock time = max session.clock time)
    obtain ⟨_, hagenda', hclock'⟩ := advance_session (session.without id)
      (rfl : max session.clock time = max session.clock time)
    rw [← hsession] at hagenda hclock
    rw [← hnext] at hagenda' hclock'
    refine mapDisplay_eq_without (hclock'.trans hclock.symm) ?_ hboard halive
    rw [hagenda', hagenda]
    exact hagendas

/-- A session without a cue for which nothing is drawn or erased goes on as if the cue had not
been there, and shows the same. -/
theorem play_withoutCue (board : Board Recorder) {past : List Step}
    (hidle : ∀ deed ∈ (start board).history past, deed.trigger.cue = id → deed.IsIdle) :
    ((start board).play (withoutCue id 0 past)).mapDisplay Recorder.rewind =
        ((start board).play past).without id ∧
      (start board).pictures (withoutCue id 0 past) = (start board).pictures past := by
  induction past using List.reverseRecOn with
  | nil => exact ⟨start_without board id, rfl⟩
  | append_singleton past step ih =>
      rw [history_concat] at hidle
      obtain ⟨hold, hnew⟩ := List.forall_mem_append.mp hidle
      obtain ⟨hother, hpictures⟩ := ih hold
      have hfollows := follows_play board past
      rw [withoutCue_concat, Nat.zero_add, ← hfollows.size_eq, pictures_append, pictures_append,
        hpictures, play_append, play_concat]
      by_cases hfires : step.fires
      · obtain ⟨hseen, hnext⟩ := step_without_of_fires hfollows hother hfires hnew
        rw [Step.without_of_fires hfires, hseen]
        exact ⟨hnext, rfl⟩
      · rw [pictures_without_of_not_fires hfires, pictures_of_not_fires hfires]
        exact ⟨play_without_of_not_fires hother hfires, rfl⟩

end Session

end Captions
