import Captions.Proofs.Board.Picture
import Captions.Proofs.Session.Calls
import Captions.Proofs.Session.Leftover

/-! # What a session leaves on the screen

As long as no call fails and every text has one place, there is nothing on the screen but in
the cells of texts that are on the record, even where texts were drawn over one another. A
session that ends without cancellations has erased all of them.
-/

namespace Captions

/-- Every text of the record stands where its place is, and the screen is blank outside the
cells of these texts. -/
structure Screen.IsCovered (place : String → Placement) (screen : Screen) (frame : Frame)
    (shown : Shown) : Prop where
  viewport : screen.viewport = frame.viewport
  placed : ∀ (text : String) (placement : Placement), shown.find? text = some placement →
    placement = place text
  covered : ∀ cell, screen.cells cell ≠ ' ' → ∃ (text : String) (placement : Placement),
    shown.find? text = some placement ∧ cell ∈ frame.span placement text

namespace Screen.IsCovered

variable {place : String → Placement} {screen : Screen} {frame : Frame} {shown : Shown}
  {text : String} {placement : Placement}

theorem blank_empty (place : String → Placement) (frame : Frame) :
    (Screen.blank frame.viewport).IsCovered place frame {} where
  viewport := rfl
  placed := nofun
  covered := fun _ hcell => absurd rfl hcell

theorem insert (hcovered : screen.IsCovered place frame shown) (color : Color) :
    (screen.drawn (frame.layout (place text) text.length) text color).IsCovered place frame
      (shown.insert text (place text)) := by
  have hviewport := hcovered.viewport
  refine ⟨viewport_drawn.trans hviewport, ?_, ?_⟩
  · intro other placement hplace
    rw [Shown.find?_insert] at hplace
    split at hplace
    next heq =>
      cases hplace
      rw [heq]
    next => exact hcovered.placed other placement hplace
  · intro cell hcell
    by_cases hmem : cell ∈ frame.span (place text) text
    · refine ⟨text, place text, ?_, hmem⟩
      rw [Shown.find?_insert, if_pos rfl]
    · rw [cells_drawn_of_notMem (hviewport ▸ hmem)] at hcell
      obtain ⟨other, placement, hplace, hspan⟩ := hcovered.covered cell hcell
      refine ⟨other, placement, ?_, hspan⟩
      rw [Shown.find?_insert, if_neg, hplace]
      -- The text itself can stand nowhere else.
      rintro rfl
      rw [hcovered.placed other placement hplace] at hspan
      exact hmem hspan

theorem erase (hcovered : screen.IsCovered place frame shown)
    (hplace : shown.find? text = some placement) (color : Color) :
    (screen.drawn (frame.layout placement text.length) (Board.blank text.length) color).IsCovered
      place frame (shown.erase text) := by
  have hviewport := hcovered.viewport
  refine ⟨viewport_drawn.trans hviewport, ?_, ?_⟩
  · intro other placement hother
    rw [Shown.find?_erase] at hother
    split at hother
    next => cases hother
    next => exact hcovered.placed other placement hother
  · intro cell hcell
    by_cases hmem : cell ∈ frame.span placement text
    · exact absurd (cells_drawn_blank (hviewport ▸ hmem)) hcell
    · rw [cells_drawn_of_notMem] at hcell
      · obtain ⟨other, placement, hother, hspan⟩ := hcovered.covered cell hcell
        refine ⟨other, placement, ?_, hspan⟩
        rw [Shown.find?_erase, if_neg, hother]
        rintro rfl
        rw [hplace] at hother
        cases hother
        exact hmem hspan
      · rw [Board.length_blank, hviewport]
        exact hmem

/-- Every action keeps the screen covered that draws its text in its place. -/
theorem action (hcovered : screen.IsCovered place frame shown) {action : Action}
    (hplaced : ∀ cue, action = .showCue cue → cue.placement.getD .centered = place cue.text) :
    (screen.replay (action.calls frame shown)).IsCovered place frame
      (action.mark.apply shown) := by
  cases action with
  | showCue cue =>
      rw [Action.mark, Action.calls]
      cases hcolor : Color.resolve cue.color with
      | ok color =>
          rw [if_pos (Cue.exists_resolve_eq_ok.mp ⟨color, hcolor⟩), hplaced cue rfl]
          exact hcovered.insert color
      | error error =>
          rw [if_neg (Cue.not_isDrawable_of_resolve_eq_error hcolor)]
          exact hcovered
  | hideText text =>
      rw [Action.mark, Action.calls, Mark.apply]
      cases hplace : shown.find? text with
      | none =>
          rw [Shown.erase_of_find?_eq_none hplace]
          exact hcovered
      | some placement => exact hcovered.erase hplace .default

theorem triggers {triggers : List Trigger} (hcovered : screen.IsCovered place frame shown)
    (hplaced : ∀ trigger ∈ triggers, ∀ cue, trigger.action = .showCue cue →
      cue.placement.getD .centered = place cue.text) :
    (screen.replay (Trigger.calls frame shown triggers)).IsCovered place frame
      (Trigger.replay shown triggers) := by
  induction triggers generalizing screen shown with
  | nil => exact hcovered
  | cons trigger rest ih =>
      obtain ⟨hfirst, hrest⟩ := List.forall_mem_cons.mp hplaced
      rw [Trigger.calls, replay_append]
      exact ih (hcovered.action hfirst) hrest

end Screen.IsCovered

namespace Session

/-- The display has not broken, and no call was refused. -/
def Undisturbed (frame : Frame) (past : List Step) : Prop :=
  ((opening frame).play past).alive ∧
    ∀ answer ∈ (opening frame).run past, ∀ event ∈ answer.events, ¬ event.isRefusal

instance (frame : Frame) (past : List Step) : Decidable (Undisturbed frame past) :=
  inferInstanceAs (Decidable (_ ∧ _))

theorem frame_play (session : Session Recorder) (past : List Step) :
    (session.play past).board.frame = session.board.frame := by
  induction past generalizing session with
  | nil => rfl
  | cons step rest ih => exact (ih _).trans (session.frame_step step)

/-- Without a failure the record and the calls are what the triggers make of them. -/
theorem Undisturbed.replays {frame : Frame} {past : List Step}
    (hundisturbed : Undisturbed frame past) :
    ((opening frame).play past).board.shown = Trigger.replay {} ((opening frame).fired past) ∧
      (opening frame).calls past = Trigger.calls frame {} ((opening frame).fired past) := by
  induction past using List.reverseRecOn with
  | nil => exact ⟨rfl, rfl⟩
  | append_singleton past step ih =>
      obtain ⟨halive, hcalm⟩ := hundisturbed
      rw [play_concat] at halive
      rw [run_concat, List.forall_mem_append, List.forall_mem_singleton] at hcalm
      obtain ⟨hshown, hcalls⟩ := ih ⟨alive_of_alive_step halive, hcalm.1⟩
      obtain ⟨hshownStep, hcallsStep⟩ := step_of_calm halive hcalm.2
      rw [hshown] at hshownStep hcallsStep
      rw [frame_play] at hcallsStep
      refine ⟨?_, ?_⟩
      · rw [play_concat, fired_concat, Trigger.replay_append, hshownStep]
      · rw [calls_concat, hcallsStep, fired_concat, Trigger.calls_append, ← hcalls]
        rfl

/-- If nothing is cancelled, the triggers that have fired by the end leave no text. -/
theorem replay_fired_finish (board : Board Recorder) {past : List Step}
    (hcancelled : ∀ id, ¬ Cancelled past id) :
    Trigger.replay {} ((start board).fired (past ++ [.finish])) = {} := by
  have hfollows := follows_play board (past ++ [.finish])
  refine Shown.eq_empty ?_
  intro text htext
  obtain ⟨placement, hplace⟩ := Option.ne_none_iff_exists'.mp (Shown.mem_texts.mp htext)
  obtain ⟨before, trigger, after, hfired, hmark, hafter⟩ :=
    Trigger.find?_replay_eq_some_iff.mp hplace
  have hmem : trigger ∈ (start board).fired (past ++ [.finish]) := by
    rw [hfired]
    simp
  obtain ⟨cue, hcue, hshow, _, htext, _⟩ :=
    (Trigger.mark_eq_drawn_iff (hfollows.mem_scheduled hmem)).mp hmark
  -- The hide of the same cue has fired too, and only after the show.
  have hhide : cue.hideTrigger trigger.cue ∈ (start board).fired (past ++ [.finish]) := by
    rw [fired_concat]
    refine (follows_play board past).mem_append_fired_finish ?_ (hcancelled _)
    rw [scheduled_concat] at hcue
    have hcues : Step.finish.cues = [] := rfl
    rw [hcues, List.append_nil] at hcue
    exact Trigger.hideTrigger_mem_ofCues hcue
  have hturn := hfollows.ledger.fired_inTurn
  generalize trigger.cue = id at hshow hhide
  subst hshow
  rw [hfired] at hturn hhide
  exact hafter _ (hturn.hideTrigger_mem hhide) htext

/-- Cues that have the same placement if they have the same text give every text a place. -/
theorem exists_place {cues : List Cue}
    (hplaces : ∀ cue ∈ cues, ∀ other ∈ cues, cue.text = other.text →
      cue.placement = other.placement) :
    ∃ place : String → Placement, ∀ cue ∈ cues, cue.placement.getD .centered = place cue.text := by
  refine ⟨fun text => ((cues.find? fun cue => cue.text = text).bind Cue.placement).getD .centered,
    ?_⟩
  intro cue hcue
  dsimp only
  cases hfind : cues.find? fun other => other.text = cue.text with
  | none =>
      rw [List.find?_eq_none] at hfind
      exact absurd (decide_eq_true rfl) (hfind cue hcue)
  | some other =>
      have htext : other.text = cue.text := by simpa using List.find?_some hfind
      rw [hplaces cue hcue other (List.mem_of_find?_eq_some hfind) htext.symm]
      rfl

/-- Texts that have one place each leave nothing on the screen when a session ends without a
cancellation and without a failure. -/
theorem blank_after_finish {frame : Frame} {past : List Step}
    (hplaces : ∀ cue ∈ scheduled past, ∀ other ∈ scheduled past, cue.text = other.text →
      cue.placement = other.placement)
    (hcancelled : ∀ id, ¬ Cancelled past id)
    (hundisturbed : Undisturbed frame (past ++ [.finish])) (cell : Cell) :
    ((Screen.blank frame.viewport).replay
      ((opening frame).calls (past ++ [.finish]))).cells cell = ' ' := by
  obtain ⟨_, hcalls⟩ := hundisturbed.replays
  obtain ⟨place, hplace⟩ := exists_place hplaces
  have hplaced : ∀ trigger ∈ (opening frame).fired (past ++ [.finish]), ∀ cue,
      trigger.action = .showCue cue → cue.placement.getD .centered = place cue.text := by
    intro trigger hmem cue haction
    have hscheduled := (follows_play ⟨frame, {}, {}⟩
      (past ++ [.finish])).mem_scheduled_of_showCue hmem haction
    have hcues : Step.finish.cues = [] := rfl
    rw [scheduled_concat, hcues, List.append_nil] at hscheduled
    exact hplace cue hscheduled
  have hcovered := (Screen.IsCovered.blank_empty place frame).triggers hplaced
  have hempty : Trigger.replay {} ((opening frame).fired (past ++ [.finish])) = {} :=
    replay_fired_finish ⟨frame, {}, {}⟩ hcancelled
  rw [hcalls]
  by_contra hcell
  obtain ⟨text, placement, hstands, _⟩ := hcovered.covered cell hcell
  rw [hempty] at hstands
  cases hstands

theorem blank_after_finish_overlapping :
    Undisturbed ⟨⟨80, 24⟩, 20, 6, 59, 17⟩
        ([.schedule "00:00 00:02 Hip [Top, Red]", .schedule "00:01 00:03 Hip [top, Beige]",
          .failAfter (some 99), .advance 1500, .schedule "00:01 00:01 Hop [Top, Red]"]
          ++ [.finish]) ∧
      ((Screen.blank ⟨80, 24⟩).replay ((opening ⟨⟨80, 24⟩, 20, 6, 59, 17⟩).calls
        ([.schedule "00:00 00:02 Hip [Top, Red]", .schedule "00:01 00:03 Hip [top, Beige]",
          .failAfter (some 99), .advance 1500, .schedule "00:01 00:01 Hop [Top, Red]"]
          ++ [.finish]))).cells ⟨39, 6⟩ = ' ' := by
  have hplaces : ∀ cue ∈ scheduled [.schedule "00:00 00:02 Hip [Top, Red]",
      .schedule "00:01 00:03 Hip [top, Beige]", .failAfter (some 99), .advance 1500,
      .schedule "00:01 00:01 Hop [Top, Red]"],
      ∀ other ∈ scheduled [.schedule "00:00 00:02 Hip [Top, Red]",
        .schedule "00:01 00:03 Hip [top, Beige]", .failAfter (some 99), .advance 1500,
        .schedule "00:01 00:01 Hop [Top, Red]"],
      cue.text = other.text → cue.placement = other.placement := by
    decide +kernel
  have hcancelled : ∀ id, ¬ Cancelled [.schedule "00:00 00:02 Hip [Top, Red]",
      .schedule "00:01 00:03 Hip [top, Beige]", .failAfter (some 99), .advance 1500,
      .schedule "00:01 00:01 Hop [Top, Red]"] id := by
    rintro id ⟨before, after, hpast, _⟩
    have hmem : Step.cancel id ∈ before ++ .cancel id :: after := by simp
    rw [← hpast] at hmem
    simp at hmem
  have hundisturbed : Undisturbed ⟨⟨80, 24⟩, 20, 6, 59, 17⟩
      ([.schedule "00:00 00:02 Hip [Top, Red]", .schedule "00:01 00:03 Hip [top, Beige]",
        .failAfter (some 99), .advance 1500, .schedule "00:01 00:01 Hop [Top, Red]"]
        ++ [.finish]) := by
    decide +kernel
  exact ⟨hundisturbed, blank_after_finish hplaces hcancelled hundisturbed ⟨39, 6⟩⟩

end Session

end Captions
