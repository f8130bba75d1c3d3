import Captions.Proofs.Session.Sound
import Mathlib.Data.List.Nodup

/-! # Replaying triggers

On a display that takes every call, the record of a board is what the triggers make of
it one after the other: a show puts a text, a hide takes it away. Whether and where a
text stands is decided by the last trigger that is about it.
-/

namespace Captions

/-- The cue names no colour or one that exists. -/
def Cue.IsDrawable (cue : Cue) : Prop :=
  ∀ name ∈ cue.color, (Color.ofName? name).isSome

instance (cue : Cue) : Decidable cue.IsDrawable :=
  inferInstanceAs (Decidable (∀ name ∈ cue.color, (Color.ofName? name).isSome))

theorem Cue.exists_resolve_eq_ok {cue : Cue} :
    (∃ color, Color.resolve cue.color = .ok color) ↔ cue.IsDrawable := by
  unfold IsDrawable Color.resolve
  cases cue.color with
  | none => exact iff_of_true ⟨.default, rfl⟩ nofun
  | some name =>
      cases hname : Color.ofName? name with
      | none => simp [hname]
      | some color => simp [hname]

theorem Cue.not_isDrawable_of_resolve_eq_error {cue : Cue} {error : DrawError}
    (hcolor : Color.resolve cue.color = .error error) : ¬ cue.IsDrawable := by
  rw [← exists_resolve_eq_ok, hcolor]
  rintro ⟨_, hok⟩
  cases hok

/-- What an action does to the record if the display takes every call. -/
def Action.mark : Action → Mark
  | .showCue cue =>
    if cue.IsDrawable then .drawn cue.text (cue.placement.getD .centered) else .kept
  | .hideText text => .wiped text

namespace Trigger

/-- What the trigger does to the record if the display takes every call. -/
def mark (trigger : Trigger) : Mark :=
  trigger.action.mark

/-- The record after the triggers have fired one after the other. -/
def replay (shown : Shown) (triggers : List Trigger) : Shown :=
  triggers.foldl (fun shown trigger => trigger.mark.apply shown) shown

theorem replay_append (shown : Shown) (triggers others : List Trigger) :
    replay shown (triggers ++ others) = replay (replay shown triggers) others :=
  List.foldl_append

theorem isSorted_replay {shown : Shown} (hsorted : shown.IsSorted) (triggers : List Trigger) :
    (replay shown triggers).IsSorted := by
  induction triggers generalizing shown with
  | nil => exact hsorted
  | cons trigger rest ih => exact ih (trigger.mark.isSorted_apply hsorted)

variable {triggers : List Trigger} {text : String} {placement : Placement}

/-- A text stands where the last trigger that is about it put it. -/
theorem find?_replay_eq_some_iff :
    (replay {} triggers).find? text = some placement ↔
      ∃ before trigger after, triggers = before ++ trigger :: after ∧
        trigger.mark = .drawn text placement ∧ ∀ other ∈ after, ¬ other.mark.Concerns text := by
  have hmarks : replay {} triggers = Mark.applyAll {} (triggers.map mark) := by
    rw [replay, Mark.applyAll, List.foldl_map]
  rw [hmarks, Mark.find?_applyAll_eq_some_iff]
  constructor
  · rintro ⟨before, after, heq, hafter⟩
    obtain ⟨first, last, rfl, rfl, hlast⟩ := List.map_eq_append_iff.mp heq
    obtain ⟨trigger, others, rfl, hmark, rfl⟩ := List.map_eq_cons_iff.mp hlast
    refine ⟨first, trigger, others, rfl, hmark, ?_⟩
    intro other hother
    exact hafter other.mark (List.mem_map_of_mem hother)
  · rintro ⟨before, trigger, after, rfl, hmark, hafter⟩
    refine ⟨before.map mark, after.map mark, by simp [hmark], ?_⟩
    simpa using hafter

variable {cues : List Cue}

/-- Of numbered cues only the shows draw a text. -/
theorem mark_eq_drawn_iff {trigger : Trigger} (hmem : trigger ∈ ofCues 0 cues) :
    trigger.mark = .drawn text placement ↔
      ∃ cue, cues[trigger.cue]? = some cue ∧ trigger = cue.showTrigger trigger.cue ∧
        cue.IsDrawable ∧ cue.text = text ∧ cue.placement.getD .centered = placement := by
  obtain ⟨cue, hcue, hpair⟩ := mem_ofCues_zero.mp hmem
  constructor
  · intro hmark
    refine ⟨cue, hcue, ?_⟩
    rcases mem_pair.mp hpair with hshow | hhide
    · rw [hshow, mark, Cue.showTrigger, Action.mark] at hmark
      split at hmark
      next hdrawable =>
        cases hmark
        exact ⟨hshow, hdrawable, rfl, rfl⟩
      next => cases hmark
    · rw [hhide] at hmark
      cases hmark
  · rintro ⟨own, _, hshow, hdrawable, rfl, rfl⟩
    rw [hshow]
    exact if_pos hdrawable

/-- The triggers of a cue are about its own text only. -/
theorem exists_cue_of_concerns {trigger : Trigger} (hmem : trigger ∈ ofCues 0 cues)
    (hconcerns : trigger.mark.Concerns text) :
    ∃ cue, cues[trigger.cue]? = some cue ∧ trigger ∈ pair trigger.cue cue ∧ cue.text = text := by
  obtain ⟨cue, hcue, hpair⟩ := mem_ofCues_zero.mp hmem
  refine ⟨cue, hcue, hpair, ?_⟩
  rcases mem_pair.mp hpair with hshow | hhide
  · rw [hshow, mark, Cue.showTrigger, Action.mark] at hconcerns
    split at hconcerns
    next => exact hconcerns
    next => cases hconcerns
  · rw [hhide] at hconcerns
    exact hconcerns

/-- If no two cues have the same text, a text stands from the show of its cue to the
hide. -/
theorem find?_replay_of_nodup (hcues : ∀ trigger ∈ triggers, trigger ∈ ofCues 0 cues)
    (hturn : InTurn triggers) (htexts : (cues.map Cue.text).Nodup) :
    (replay {} triggers).find? text = some placement ↔
      ∃ (id : Nat) (cue : Cue), cues[id]? = some cue ∧ cue.IsDrawable ∧ cue.text = text ∧
        cue.placement.getD .centered = placement ∧ cue.showTrigger id ∈ triggers ∧
        cue.hideTrigger id ∉ triggers := by
  rw [find?_replay_eq_some_iff]
  constructor
  · rintro ⟨before, trigger, after, rfl, hmark, hafter⟩
    have hmem : trigger ∈ before ++ trigger :: after := by simp
    obtain ⟨cue, hcue, hshow, hdrawable, htext, hplacement⟩ :=
      (mark_eq_drawn_iff (hcues trigger hmem)).mp hmark
    refine ⟨trigger.cue, cue, hcue, hdrawable, htext, hplacement, hshow ▸ hmem, ?_⟩
    rw [hshow] at hturn
    intro hhide
    rw [hshow] at hhide
    have hlater := hafter _ (hturn.hideTrigger_mem hhide)
    exact hlater htext
  · rintro ⟨id, cue, hcue, hdrawable, rfl, rfl, hshow, hhide⟩
    obtain ⟨before, after, rfl⟩ := List.append_of_mem hshow
    refine ⟨before, _, after, rfl, if_pos hdrawable, ?_⟩
    intro other hother hconcerns
    obtain ⟨own, hown, hpair, htext⟩ :=
      exists_cue_of_concerns (hcues other (by simp [hother])) hconcerns
    -- The other trigger is for a cue with the same text, which is the same cue.
    have hid : id = other.cue := by
      have hlength : id < (cues.map Cue.text).length := by
        rw [List.length_map]
        exact (List.getElem?_eq_some_iff.mp hcue).1
      refine (List.getElem?_inj hlength htexts).mp ?_
      rw [List.getElem?_map, List.getElem?_map, hcue, hown, Option.map_some, Option.map_some, htext]
    subst hid
    rw [hcue] at hown
    cases hown
    obtain ⟨_, hafter, _⟩ := List.pairwise_append.mp hturn
    rcases mem_pair.mp hpair with hsame | hhidden
    · have hlt := List.rel_of_pairwise_cons hafter hother rfl
      rw [hsame] at hlt
      exact Nat.lt_irrefl _ hlt
    · refine hhide ?_
      rw [← hhidden]
      simp [hother]

end Trigger

section Reliable

variable {δ : Type} [Display δ]

/-- The display takes every call, now and ever after. -/
def Display.IsReliable (display : δ) : Prop :=
  ∀ calls, (carryOut calls display).1 = .done

theorem Display.guards_isReliable : Guards (IsReliable : δ → Prop) := by
  intro display call hreliable
  have hall : ∀ rest, (carryOut (call :: rest) display).1 = .done := by
    intro rest
    exact hreliable (call :: rest)
  generalize hcall : perform call display = answer at *
  obtain ⟨status, next⟩ := answer
  simp only [carryOut, hcall] at hall
  cases status with
  | done =>
      refine ⟨?_, hall⟩
      intro hbroken
      cases hbroken
  | refused | broken => cases hall []

namespace Session

variable {session : Session δ}

theorem shown_act_of_isReliable (hreliable : Display.IsReliable session.board.display)
    (action : Action) :
    (session.act action).2.board.shown = action.mark.apply session.board.shown := by
  have haccepts : ∀ calls, session.board.accepts calls := by
    intro calls
    exact decide_eq_true (hreliable calls)
  rw [shown_act]
  cases action with
  | showCue cue =>
      rw [mark, Action.mark]
      by_cases hdrawable : cue.IsDrawable
      · obtain ⟨color, hcolor⟩ := Cue.exists_resolve_eq_ok.mpr hdrawable
        simp only [hcolor, haccepts, hdrawable, if_true]
      · cases hcolor : Color.resolve cue.color with
        | ok color => exact absurd (Cue.exists_resolve_eq_ok.mp ⟨color, hcolor⟩) hdrawable
        | error error => simp only [hdrawable, if_false]
  | hideText text =>
      rw [mark, Action.mark, Mark.apply]
      cases hplace : session.board.shown.find? text with
      | none => exact (Shown.erase_of_find?_eq_none hplace).symm
      | some placement => simp only [haccepts, if_true, Mark.apply]

/-- On a reliable display the record is what the triggers make of it. -/
theorem shown_actAll_of_keeps (hkeeps : session.Keeps Display.IsReliable)
    (triggers : List Trigger) :
    (session.actAll triggers).2.board.shown = Trigger.replay session.board.shown triggers := by
  induction triggers generalizing session with
  | nil => rfl
  | cons trigger rest ih =>
      rw [actAll, if_pos hkeeps.alive]
      refine (ih (hkeeps.act Display.guards_isReliable trigger.action)).trans ?_
      rw [shown_act_of_isReliable hkeeps.display]
      rfl

theorem shown_advance_of_keeps (hkeeps : session.Keeps Display.IsReliable) (time : Nat) :
    (session.advance time).session.board.shown =
      Trigger.replay session.board.shown (session.advance time).fired := by
  simp only [advance, actAll_with]
  exact shown_actAll_of_keeps hkeeps _

end Session

end Reliable

end Captions
