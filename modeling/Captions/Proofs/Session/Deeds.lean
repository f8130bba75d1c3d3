import Captions.Proofs.Agenda.Triggers
import Captions.Proofs.Board.Marks
import Captions.Session

/-! # Deeds of a session

Carrying out the action of a trigger is a deed. It changes the record of the board
exactly if the display took the calls that paint the text or its blanks. A text
that is on the record after some deeds was drawn by one of them, or was there
before, and from then on every attempt to erase it was refused.
-/

namespace Captions

/-- An action that was carried out, what it did to the record, and what was logged. -/
structure Deed where
  trigger : Trigger
  mark : Mark
  events : List Event
deriving DecidableEq, Repr

/-- Whether something was reported because the display refused a call. -/
def Event.isRefusal : Event → Bool
  | .failedToShow _ (.display _) | .failedToHide _ (.display _) => true
  | _ => false

namespace Deed

/-- The deed drew a text and recorded it. -/
def Draws (deed : Deed) (text : String) : Prop :=
  ∃ cue, deed.trigger.action = .showCue cue ∧ cue.text = text ∧
    deed.mark = .drawn text (cue.placement.getD .centered)

/-- The deed was to erase a text, and the display refused that. -/
def Spares (deed : Deed) (text : String) : Prop :=
  ∃ fault, Event.failedToHide text (.display fault) ∈ deed.events

/-- What a deed may do to a given record. -/
def Fits (deed : Deed) (shown : Shown) : Prop :=
  match deed.trigger.action with
  | .showCue cue =>
    deed.mark = .kept ∨ deed.mark = .drawn cue.text (cue.placement.getD .centered)
  | .hideText text =>
    deed.mark = .wiped text ∨ deed.mark = .kept ∧ (shown.find? text = none ∨ deed.Spares text)

/-- Deeds that turn one record into another. -/
def Leads (first : Shown) : List Deed → Shown → Prop
  | [], last => first = last
  | deed :: rest, last => deed.Fits first ∧ Leads (deed.mark.apply first) rest last

theorem leads_append {first last : Shown} {deeds others : List Deed} :
    Leads first (deeds ++ others) last ↔
      ∃ middle, Leads first deeds middle ∧ Leads middle others last := by
  induction deeds generalizing first with
  | nil => simp [Leads]
  | cons deed rest ih => simp [Leads, ih, and_assoc]

/-- A text on the record after a deed was drawn by it, or was there before and has
not been erased. -/
theorem Fits.draws_or_spares {deed : Deed} {shown : Shown} (hfits : deed.Fits shown)
    {text : String} (hnext : (deed.mark.apply shown).find? text ≠ none) :
    deed.Draws text ∨ shown.find? text ≠ none ∧
      (deed.trigger.action = .hideText text → deed.Spares text) := by
  unfold Fits at hfits
  split at hfits
  next cue haction =>
    have hshow : deed.trigger.action = .hideText text → deed.Spares text := by
      intro hhide
      rw [haction] at hhide
      cases hhide
    rcases hfits with hmark | hmark
    · rw [hmark] at hnext
      exact .inr ⟨hnext, hshow⟩
    · by_cases htext : cue.text = text
      · exact .inl ⟨cue, haction, htext, htext ▸ hmark⟩
      · rw [hmark, Mark.apply, Shown.find?_insert, if_neg (Ne.symm htext)] at hnext
        exact .inr ⟨hnext, hshow⟩
  next hidden haction =>
    rcases hfits with hmark | ⟨hmark, hkept⟩
    · rw [hmark, Mark.apply, Shown.find?_erase] at hnext
      split at hnext
      next => exact absurd rfl hnext
      next hne =>
        refine .inr ⟨hnext, ?_⟩
        intro hhide
        rw [haction] at hhide
        cases hhide
        exact absurd rfl hne
    · rw [hmark, Mark.apply] at hnext
      refine .inr ⟨hnext, ?_⟩
      intro hhide
      rw [haction] at hhide
      cases hhide
      exact hkept.resolve_left hnext

/-- A text on the record was there from the start or was drawn, and has been spared
ever since. -/
theorem spared_of_leads {first last : Shown} {deeds : List Deed} (hleads : Leads first deeds last)
    {text : String} (hlast : last.find? text ≠ none) :
    (first.find? text ≠ none ∧
        ∀ deed ∈ deeds, deed.trigger.action = .hideText text → deed.Spares text) ∨
      ∃ before drawing after, deeds = before ++ drawing :: after ∧ drawing.Draws text ∧
        ∀ deed ∈ after, deed.trigger.action = .hideText text → deed.Spares text := by
  induction deeds generalizing first with
  | nil =>
      cases hleads
      exact .inl ⟨hlast, by simp⟩
  | cons deed rest ih =>
      -- If no later deed drew the text, it was on the record after this one.
      obtain ⟨hfits, hrest⟩ := hleads
      rcases ih hrest with ⟨hnext, hspared⟩ | ⟨before, drawing, after, rfl, hdraws, hspared⟩
      · rcases hfits.draws_or_spares hnext with hdraws | ⟨hfirst, hspares⟩
        · exact .inr ⟨[], deed, rest, rfl, hdraws, hspared⟩
        · exact .inl ⟨hfirst, List.forall_mem_cons.mpr ⟨hspares, hspared⟩⟩
      · exact .inr ⟨deed :: before, drawing, after, rfl, hdraws, hspared⟩

/-- If the deeds are for cues in turn, a text on the record was drawn for a cue, and
if the hide of the same cue was carried out, it was refused. -/
theorem exists_cue_of_leads {last : Shown} {deeds : List Deed} {cues : List Cue}
    (hleads : Leads {} deeds last)
    (hcues : ∀ trigger ∈ deeds.map Deed.trigger, trigger ∈ Trigger.ofCues 0 cues)
    (hturn : Trigger.InTurn (deeds.map Deed.trigger)) {text : String} (hlast : text ∈ last.texts) :
    ∃ (id : Nat) (cue : Cue), cues[id]? = some cue ∧ cue.text = text ∧
      (∃ deed ∈ deeds, deed.trigger = cue.showTrigger id ∧
        deed.mark = .drawn text (cue.placement.getD .centered)) ∧
      ∀ deed ∈ deeds, deed.trigger = cue.hideTrigger id → deed.Spares text := by
  rcases spared_of_leads hleads (Shown.mem_texts.mp hlast) with
    ⟨hfirst, _⟩ | ⟨before, drawing, after, rfl, hdraws, hspared⟩
  · exact absurd (Shown.find?_empty text) hfirst
  obtain ⟨shown, haction, htext, hmark⟩ := hdraws
  have hdrawing : drawing ∈ before ++ drawing :: after :=
    List.mem_append_right before List.mem_cons_self
  obtain ⟨cue, hcue, hpair⟩ :=
    Trigger.mem_ofCues_zero.mp (hcues drawing.trigger (List.mem_map_of_mem hdrawing))
  have hshow : drawing.trigger = cue.showTrigger drawing.trigger.cue := by
    refine (Trigger.mem_pair.mp hpair).resolve_right ?_
    intro hhide
    rw [hhide] at haction
    cases haction
  have hsame : cue = shown := by
    rw [hshow] at haction
    exact Action.showCue.inj haction
  subst hsame
  refine ⟨drawing.trigger.cue, cue, hcue, htext, ⟨drawing, hdrawing, hshow, hmark⟩, ?_⟩
  intro deed hdeed hhide
  have hspares : deed.trigger.action = .hideText text := by
    rw [hhide, ← htext]
    rfl
  rw [List.map_append, List.map_cons] at hturn
  obtain ⟨_, _, hbefore⟩ := List.pairwise_append.mp hturn
  -- The hide comes after the show, and from there on the text was spared.
  rcases List.mem_append.mp hdeed with hmem | hmem
  · have hlt := hbefore deed.trigger (List.mem_map_of_mem hmem) drawing.trigger
      List.mem_cons_self (by rw [hhide]; rfl)
    rw [hhide, hshow, Cue.rank_hideTrigger, Cue.rank_showTrigger] at hlt
    have hid : (cue.showTrigger drawing.trigger.cue).cue = drawing.trigger.cue := rfl
    omega
  · rcases List.mem_cons.mp hmem with rfl | hmem
    · rw [hspares] at haction
      cases haction
    · exact hspared deed hmem hspares

end Deed

namespace Session

variable {δ : Type}

theorem board_settle (report : DrawError → Event) (drawing : Drawing δ) (session : Session δ) :
    (session.settle report drawing).2.board = drawing.board := by
  unfold settle
  split <;> rfl

theorem settle_with (report : DrawError → Event) (drawing : Drawing δ) (session : Session δ)
    (clock : Nat) (agenda : Agenda) :
    ({ session with clock, agenda } : Session δ).settle report drawing =
      ((session.settle report drawing).1,
        { (session.settle report drawing).2 with clock, agenda }) := by
  unfold settle
  split <;> rfl

variable [Display δ]

/-- What an action does to the record of the board of a session. -/
def mark (action : Action) (session : Session δ) : Mark :=
  let board := session.board
  match action with
  | .showCue cue =>
    let placement := cue.placement.getD .centered
    match Color.resolve cue.color with
    | .ok color =>
      if board.accepts (Board.paintAt (board.positionOf placement cue.text) cue.text color)
      then .drawn cue.text placement
      else .kept
    | .error _ => .kept
  | .hideText text =>
    match board.shown.find? text with
    | none => .kept
    | some placement =>
      let blank := Board.blank text.length
      if board.accepts (Board.paintAt (board.positionOf placement text) blank .default)
      then .wiped text
      else .kept

/-- The deeds of a session that carries out the actions of triggers in order. -/
def deeds (session : Session δ) : List Trigger → List Deed
  | [] => []
  | trigger :: rest =>
    if session.alive then
      let acted := session.act trigger.action
      ⟨trigger, session.mark trigger.action, acted.1⟩ :: acted.2.deeds rest
    else []

theorem shown_act (action : Action) (session : Session δ) :
    (session.act action).2.board.shown = (session.mark action).apply session.board.shown := by
  cases action with
  | showCue cue =>
      cases hcolor : Color.resolve cue.color with
      | ok color =>
          simp only [act, mark, hcolor, board_settle, Board.showText, Board.shown_draw]
          split <;> rfl
      | error error => simp only [act, mark, hcolor, Mark.apply]
  | hideText text =>
      cases hplace : session.board.shown.find? text with
      | none => simp only [act, mark, hplace, board_settle, Board.hideText, Mark.apply]
      | some placement =>
          simp only [act, mark, hplace, board_settle, Board.hideText, Board.shown_draw]
          split <;> rfl

/-- If the display does not take the blanks over a text, that is reported. -/
theorem failedToHide_mem_act {text : String} {session : Session δ} {placement : Placement}
    (hplace : session.board.shown.find? text = some placement)
    (hrefused : ¬ session.board.accepts (Board.paintAt (session.board.positionOf placement text)
      (Board.blank text.length) .default))
    (halive : (session.act (.hideText text)).2.alive) :
    ∃ fault, Event.failedToHide text (.display fault) ∈ (session.act (.hideText text)).1 := by
  have hstatus := Board.draw_ne_done hrefused (Shown.erase text)
  simp only [act, Board.hideText, hplace, settle] at halive ⊢
  generalize Board.draw _ (Shown.erase text) session.board = drawn at hstatus halive ⊢
  obtain ⟨status, board⟩ := drawn
  cases status with
  | done => exact absurd rfl hstatus
  | refused fault => exact ⟨fault, List.mem_append_right _ List.mem_cons_self⟩
  | broken => cases halive

/-- Unless the display breaks, an action does one of the things that it may do. -/
theorem fits_act (trigger : Trigger) {session : Session δ}
    (halive : (session.act trigger.action).2.alive) :
    (⟨trigger, session.mark trigger.action, (session.act trigger.action).1⟩ : Deed).Fits
      session.board.shown := by
  unfold Deed.Fits
  split
  next cue haction =>
    rw [haction, mark]
    dsimp only
    split
    next => split <;> simp
    next => exact .inl rfl
  next text haction =>
    dsimp only at haction ⊢
    rw [haction] at halive ⊢
    cases hplace : session.board.shown.find? text with
    | none => exact .inr ⟨by simp only [mark, hplace], .inl rfl⟩
    | some placement =>
        simp only [mark, hplace]
        split
        next => exact .inl rfl
        next hrefused => exact .inr ⟨rfl, .inr (failedToHide_mem_act hplace hrefused halive)⟩

theorem alive_of_alive_actAll {triggers : List Trigger} {session : Session δ}
    (halive : (session.actAll triggers).2.alive) : session.alive := by
  cases triggers with
  | nil => exact halive
  | cons trigger rest =>
      rw [actAll] at halive
      split at halive
      next h => exact h
      next => exact halive

/-- What an action does to the board depends on neither the clock nor the agenda. -/
theorem act_with (action : Action) (session : Session δ) (clock : Nat) (agenda : Agenda) :
    ({ session with clock, agenda } : Session δ).act action =
      ((session.act action).1, { (session.act action).2 with clock, agenda }) := by
  cases action with
  | showCue cue =>
      cases hcolor : Color.resolve cue.color with
      | ok color =>
          simp only [act, hcolor]
          exact settle_with _ _ session clock agenda
      | error error => simp only [act, hcolor]
  | hideText text => exact settle_with _ _ session clock agenda

theorem actAll_with (triggers : List Trigger) (session : Session δ) (clock : Nat)
    (agenda : Agenda) :
    ({ session with clock, agenda } : Session δ).actAll triggers =
      ((session.actAll triggers).1, { (session.actAll triggers).2 with clock, agenda }) := by
  induction triggers generalizing session with
  | nil => rfl
  | cons trigger rest ih =>
      simp only [actAll, act_with, ih]
      split <;> rfl

theorem advance_session (session : Session δ) {time target : Nat}
    (htarget : max session.clock time = target) :
    (session.advance time).fired = (session.agenda.fire session.clock target).1 ∧
      (session.advance time).session.agenda = (session.agenda.fire session.clock target).2 ∧
      (session.advance time).session.clock = target := by
  subst htarget
  refine ⟨rfl, ?_⟩
  simp only [advance, actAll_with, and_self]

theorem alive_of_alive_advance {session : Session δ} {time : Nat}
    (halive : (session.advance time).session.alive) : session.alive := by
  simp only [advance, actAll_with] at halive
  exact alive_of_alive_actAll halive

theorem actAll_append (first second : List Trigger) (session : Session δ) :
    session.actAll (first ++ second) =
      ((session.actAll first).1 ++ ((session.actAll first).2.actAll second).1,
        ((session.actAll first).2.actAll second).2) := by
  induction first generalizing session with
  | nil => rfl
  | cons trigger rest ih =>
      rw [List.cons_append, actAll, actAll]
      split
      next => simp only [ih, List.append_assoc]
      next hdead =>
        cases second with
        | nil => rfl
        | cons => rw [actAll, if_neg hdead]; rfl

theorem events_actAll (triggers : List Trigger) (session : Session δ) :
    (session.actAll triggers).1 = (session.deeds triggers).flatMap Deed.events := by
  induction triggers generalizing session with
  | nil => rfl
  | cons trigger rest ih =>
      rw [actAll, deeds]
      split
      next => rw [List.flatMap_cons, ← ih]
      next => rfl

theorem trigger_mem_of_mem_deeds {triggers : List Trigger} {session : Session δ} {deed : Deed}
    (hdeed : deed ∈ session.deeds triggers) : deed.trigger ∈ triggers := by
  induction triggers generalizing session with
  | nil => cases hdeed
  | cons trigger rest ih =>
      rw [deeds] at hdeed
      split at hdeed
      next =>
        rcases List.mem_cons.mp hdeed with rfl | hrest
        · exact List.mem_cons_self
        · exact List.mem_cons_of_mem _ (ih hrest)
      next => cases hdeed

/-- While the display works there is one deed for each trigger. -/
theorem map_trigger_deeds {triggers : List Trigger} {session : Session δ}
    (halive : (session.actAll triggers).2.alive) :
    (session.deeds triggers).map Deed.trigger = triggers := by
  induction triggers generalizing session with
  | nil => rfl
  | cons trigger rest ih =>
      have hfirst := alive_of_alive_actAll halive
      rw [actAll, if_pos hfirst] at halive
      rw [deeds, if_pos hfirst, List.map_cons, ih halive]

/-- While the display works the deeds of a session turn its record into the next. -/
theorem leads_deeds {triggers : List Trigger} {session : Session δ}
    (halive : (session.actAll triggers).2.alive) :
    Deed.Leads session.board.shown (session.deeds triggers)
      (session.actAll triggers).2.board.shown := by
  induction triggers generalizing session with
  | nil => rfl
  | cons trigger rest ih =>
      have hfirst := alive_of_alive_actAll halive
      rw [actAll, if_pos hfirst] at halive ⊢
      rw [deeds, if_pos hfirst]
      refine ⟨fits_act trigger (alive_of_alive_actAll halive), ?_⟩
      rw [← shown_act]
      exact ih halive

end Session

end Captions
