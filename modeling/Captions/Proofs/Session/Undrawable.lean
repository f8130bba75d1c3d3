import Captions.Proofs.Session.Omission

/-! # Cues that cannot be drawn

A text of which no cue can be drawn is never on the board, so the hides of these cues find
nothing to erase. A cue whose color does not exist thus leaves no trace unless its text stands
on the board for another cue.
-/

namespace Captions.Session

section Display

variable {δ : Type} [Display δ] {session : Session δ}

/-- What draws a text is the show of a drawable cue with this text. -/
theorem exists_cue_of_mark {action : Action} {text : String} {placement : Placement}
    (hmark : session.mark action = .drawn text placement) :
    ∃ cue, action = .showCue cue ∧ cue.text = text ∧ cue.IsDrawable := by
  cases action with
  | showCue cue =>
      rw [mark] at hmark
      split at hmark
      next color hcolor =>
        split at hmark
        next =>
          cases hmark
          exact ⟨cue, rfl, rfl, Cue.exists_resolve_eq_ok.mp ⟨color, hcolor⟩⟩
        next => cases hmark
      next => cases hmark
  | hideText other =>
      rw [mark] at hmark
      split at hmark
      next => cases hmark
      next =>
        dsimp only at hmark
        split at hmark
        next => cases hmark
        next => cases hmark

/-- A text that is not there stays away unless it is drawn. -/
theorem find?_act_eq_none {action : Action} {text : String}
    (hnone : session.board.shown.find? text = none)
    (hshow : ∀ cue, action = .showCue cue → cue.text = text → ¬ cue.IsDrawable) :
    (session.act action).2.board.shown.find? text = none := by
  rw [shown_act]
  cases hmark : session.mark action with
  | drawn other placement =>
      obtain ⟨cue, haction, htext, hdrawable⟩ := exists_cue_of_mark hmark
      rw [Mark.apply, Shown.find?_insert, if_neg, hnone]
      rintro rfl
      exact hshow cue haction htext hdrawable
  | wiped other => rw [Mark.apply, Shown.find?_erase, hnone, ite_self]
  | kept => exact hnone

/-- A text that is not there and that no trigger draws stays away, and whoever is to erase it
finds nothing. -/
theorem nothingToHide_mem_deeds {text : String} {triggers : List Trigger}
    (hnone : session.board.shown.find? text = none)
    (hshow : ∀ trigger ∈ triggers, ∀ cue, trigger.action = .showCue cue → cue.text = text →
      ¬ cue.IsDrawable) :
    (session.actAll triggers).2.board.shown.find? text = none ∧
      ∀ deed ∈ session.deeds triggers, deed.trigger.action = .hideText text →
        .nothingToHide text ∈ deed.events := by
  induction triggers generalizing session with
  | nil => exact ⟨hnone, by simp [deeds]⟩
  | cons trigger rest ih =>
      by_cases halive : session.alive
      · obtain ⟨hfirst, hrest⟩ := List.forall_mem_cons.mp hshow
        obtain ⟨hlast, hdeeds⟩ := ih (find?_act_eq_none hnone hfirst) hrest
        rw [actAll, if_pos halive, deeds, if_pos halive]
        refine ⟨hlast, List.forall_mem_cons.mpr ⟨?_, hdeeds⟩⟩
        intro haction
        dsimp only at haction ⊢
        simp only [haction, act, Board.hideText, hnone, settle, List.mem_singleton]
      · rw [actAll_of_not_alive halive, deeds, if_neg halive]
        exact ⟨hnone, by simp⟩

end Display

/-- The same for a whole session that starts with nothing drawn. -/
theorem nothingToHide_mem_history {frame : Frame} {text : String} {past : List Step}
    (hshow : ∀ trigger ∈ (opening frame).fired past, ∀ cue, trigger.action = .showCue cue →
      cue.text = text → ¬ cue.IsDrawable) :
    ((opening frame).play past).board.shown.find? text = none ∧
      ∀ deed ∈ (opening frame).history past, deed.trigger.action = .hideText text →
        .nothingToHide text ∈ deed.events := by
  induction past using List.reverseRecOn with
  | nil => exact ⟨rfl, nofun⟩
  | append_singleton past step ih =>
      rw [fired_concat] at hshow
      obtain ⟨hold, hnew⟩ := List.forall_mem_append.mp hshow
      obtain ⟨hnone, hdeeds⟩ := ih hold
      rw [play_concat, history_concat]
      by_cases hfires : step.fires
      · rw [(step_eq_actAll _ hfires).2.1]
        have hrewound : (((opening frame).play past).mapDisplay
          Recorder.rewind).board.shown.find? text = none := hnone
        obtain ⟨hlast, hlater⟩ := nothingToHide_mem_deeds hrewound hnew
        exact ⟨hlast, List.forall_mem_append.mpr ⟨hdeeds, hlater⟩⟩
      · obtain ⟨hfired, _, hshown, _⟩ := step_of_not_fires ((opening frame).play past) hfires
        rw [hshown, deedsOf, hfired, deeds, List.append_nil]
        exact ⟨hnone, hdeeds⟩

/-- The deeds for a cue that cannot be drawn are idle if its hide finds nothing. -/
theorem isIdle_of_mem_history {board : Board Recorder} {past : List Step} {id : Nat} {cue : Cue}
    {deed : Deed} (hcue : (scheduled past)[id]? = some cue) (hcolor : ¬ cue.IsDrawable)
    (hdeed : deed ∈ (start board).history past) (hid : deed.trigger.cue = id)
    (hnothing : deed.trigger = cue.hideTrigger id → .nothingToHide cue.text ∈ deed.events) :
    deed.IsIdle := by
  obtain ⟨own, hown, hpair⟩ := Trigger.mem_ofCues_zero.mp
    ((follows_play board past).mem_scheduled (trigger_mem_fired hdeed))
  rw [hid, hcue] at hown
  cases hown
  rw [hid] at hpair
  unfold Deed.IsIdle
  rcases Trigger.mem_pair.mp hpair with hshow | hhide
  · rw [hshow]
    exact hcolor
  · have hevent := hnothing hhide
    rw [hhide]
    exact hevent

/-- A script shows the same without the line of a cue whose color does not exist, unless the
hide of the cue erases what was drawn for another one. It finds nothing to erase if no other
cue with the same text can be drawn. -/
theorem pictures_withoutCue (frame : Frame) {script : List Step} {id : Nat} {cue : Cue}
    (hcue : (scheduled script)[id]? = some cue) (hcolor : ¬ cue.IsDrawable) :
    ((∀ deed ∈ (opening frame).history script, deed.trigger = cue.hideTrigger id →
        .nothingToHide cue.text ∈ deed.events) →
      (opening frame).pictures (withoutCue id 0 script) = (opening frame).pictures script ∧
        (opening frame).calls (withoutCue id 0 script) = (opening frame).calls script) ∧
      ((∀ other ∈ scheduled script, other.text = cue.text → ¬ other.IsDrawable) →
        ∀ deed ∈ (opening frame).history script, deed.trigger = cue.hideTrigger id →
          .nothingToHide cue.text ∈ deed.events) := by
  refine ⟨?_, ?_⟩
  · intro hnothing
    have hpictures : (opening frame).pictures (withoutCue id 0 script) =
        (opening frame).pictures script := by
      refine (play_withoutCue _ ?_).2
      intro deed hdeed hid
      exact isIdle_of_mem_history hcue hcolor hdeed hid (hnothing deed hdeed)
    rw [calls_eq_flatMap_pictures, calls_eq_flatMap_pictures, hpictures]
    exact ⟨rfl, rfl⟩
  · intro hothers deed hdeed hhide
    have haction : deed.trigger.action = .hideText cue.text := by
      rw [hhide]
      rfl
    refine (nothingToHide_mem_history ?_).2 deed hdeed haction
    intro trigger htrigger own hshow
    exact hothers own ((follows_play _ script).mem_scheduled_of_showCue htrigger hshow)

theorem pictures_withoutCue_shown_later :
    (scheduled [.schedule "00:00 00:01 Hi [Top, Mauve]", .advance 1500,
        .ingest [.ok "00:02 00:04 Hi", .ok "00:02 00:05 Ho"], .cancel 2, .advance 2500, .cancel 0,
        .finish])[0]? = some ⟨0, 1000, "Hi", some .top, some "Mauve"⟩ ∧
      (opening ⟨⟨80, 24⟩, 20, 6, 59, 17⟩).pictures
          [.advance 1500, .ingest [.ok "00:02 00:04 Hi", .ok "00:02 00:05 Ho"], .cancel 1,
            .advance 2500, .finish] =
        (opening ⟨⟨80, 24⟩, 20, 6, 59, 17⟩).pictures
          [.schedule "00:00 00:01 Hi [Top, Mauve]", .advance 1500,
            .ingest [.ok "00:02 00:04 Hi", .ok "00:02 00:05 Ho"], .cancel 2, .advance 2500,
            .cancel 0, .finish] := by
  have hcue : (scheduled [.schedule "00:00 00:01 Hi [Top, Mauve]", .advance 1500,
      .ingest [.ok "00:02 00:04 Hi", .ok "00:02 00:05 Ho"], .cancel 2, .advance 2500, .cancel 0,
      .finish])[0]? = some ⟨0, 1000, "Hi", some .top, some "Mauve"⟩ := by
    decide +kernel
  obtain ⟨hsame, _⟩ :=
    pictures_withoutCue ⟨⟨80, 24⟩, 20, 6, 59, 17⟩ hcue (by decide)
  obtain ⟨hpictures, _⟩ := hsame (by decide +kernel)
  exact ⟨hcue, hpictures⟩

/-- A text that stands for another cue is erased by the hide of a cue that could not be
drawn. -/
theorem not_pictures_withoutCue_of_same_text :
    ¬ ∀ (script : List Step) (id : Nat) (cue : Cue), (scheduled script)[id]? = some cue →
      ¬ cue.IsDrawable → .finish ∉ script.dropLast → .crash ∉ script →
      (∀ limit, .failAfter limit ∉ script) →
      (opening ⟨⟨80, 24⟩, 20, 6, 59, 17⟩).pictures (withoutCue id 0 script) =
        (opening ⟨⟨80, 24⟩, 20, 6, 59, 17⟩).pictures script := by
  intro hall
  have hpictures := hall
    [.schedule "00:00 00:01 Hi [Top, Mauve]", .schedule "00:00 00:05 Hi", .advance 2000] 0
    ⟨0, 1000, "Hi", some .top, some "Mauve"⟩ (by decide +kernel) (by decide) (by simp) (by simp)
    (by simp)
  have hcalls := congrArg (List.map Prod.fst) hpictures
  revert hcalls
  decide +kernel

end Captions.Session
