import Captions.Proofs.Session.Accounting
import Captions.Proofs.Session.Sound

/-! # What is left on the board at the end

A text that is still recorded when a session ends was drawn for a cue whose own hide
was cancelled or refused.
-/

namespace Captions.Session

/-- The deeds of a step. -/
def deedsOf (session : Session Recorder) (step : Step) : List Deed :=
  (session.mapDisplay Recorder.rewind).deeds (session.step step).1.fired

/-- The deeds of some steps. -/
def history (session : Session Recorder) : List Step → List Deed
  | [] => []
  | first :: rest => session.deedsOf first ++ (session.step first).2.history rest

theorem history_concat (session : Session Recorder) (past : List Step) (step : Step) :
    session.history (past ++ [step]) =
      session.history past ++ (session.play past).deedsOf step := by
  induction past generalizing session with
  | nil => exact List.append_nil _
  | cons first rest ih =>
      rw [List.cons_append, history, ih, history, play, List.append_assoc]

theorem trigger_mem_fired {session : Session Recorder} {past : List Step} {deed : Deed}
    (hdeed : deed ∈ session.history past) :
    deed.trigger ∈ session.fired past := by
  induction past using List.reverseRecOn with
  | nil => cases hdeed
  | append_singleton past step ih =>
      rw [history_concat] at hdeed
      rw [fired_concat]
      rcases List.mem_append.mp hdeed with hold | hnew
      · exact List.mem_append_left _ (ih hold)
      · exact List.mem_append_right _ (trigger_mem_of_mem_deeds hnew)

theorem advance_deeds {δ : Type} [Display δ] {session : Session δ} {time : Nat}
    (halive : (session.advance time).session.alive) :
    (session.deeds (session.advance time).fired).map Deed.trigger = (session.advance time).fired ∧
      (session.advance time).events =
        (session.deeds (session.advance time).fired).flatMap Deed.events ∧
      Deed.Leads session.board.shown (session.deeds (session.advance time).fired)
        (session.advance time).session.board.shown := by
  simp only [advance, actAll_with] at halive ⊢
  exact ⟨map_trigger_deeds halive, events_actAll _ _, leads_deeds halive⟩

/-- While the display works, the deeds of a step are what its triggers did to the record
and what was logged for them. -/
theorem deedsOf_spec {session : Session Recorder} {step : Step}
    (halive : (session.step step).2.alive) :
    (session.deedsOf step).map Deed.trigger = (session.step step).1.fired ∧
      (∀ deed ∈ session.deedsOf step, ∀ event ∈ deed.events,
        event ∈ (session.step step).1.events) ∧
      Deed.Leads session.board.shown (session.deedsOf step)
        (session.step step).2.board.shown := by
  by_cases hfires : step.fires
  · obtain ⟨time, _, hfired, hevents, hsession⟩ := exists_advance_of_fires session hfires
    rw [deedsOf, hfired, hevents, hsession]
    rw [hsession] at halive
    obtain ⟨htriggers, hlogged, hleads⟩ := advance_deeds halive
    refine ⟨htriggers, ?_, hleads⟩
    intro deed hdeed event hevent
    rw [hlogged]
    exact List.mem_flatMap.mpr ⟨deed, hdeed, hevent⟩
  · obtain ⟨hfired, _, hshown, _⟩ := step_of_not_fires session hfires
    rw [deedsOf, hfired, hshown]
    exact ⟨rfl, nofun, rfl⟩

theorem result_finish {session : Session Recorder} (halive : (session.step .finish).2.alive) :
    (session.step .finish).1.result = .finished (session.step .finish).2.board.shown := by
  have hremaining : (session.mapDisplay Recorder.rewind).playOut.session.remaining =
      some (session.step .finish).2.board.shown := if_pos halive
  have hresult : (session.step .finish).1.result =
      (session.mapDisplay Recorder.rewind).playOut.session.remaining.elim .lost .finished := rfl
  rw [hresult, hremaining]
  rfl

/-- A session on a recorder, with nothing drawn yet. -/
def opening (frame : Frame) : Session Recorder :=
  start ⟨frame, {}, {}⟩

/-- The deeds of a session without a crash tell how its record came about. -/
structure Tells (frame : Frame) (past : List Step) : Prop where
  sound : ((opening frame).play past).IsSound
  triggers : ((opening frame).history past).map Deed.trigger =
    (opening frame).fired past
  events : ∀ deed ∈ (opening frame).history past, ∀ event ∈ deed.events,
    ∃ answer ∈ (opening frame).run past, event ∈ answer.events
  leads : Deed.Leads {} ((opening frame).history past)
    ((opening frame).play past).board.shown

theorem Tells.concat {frame : Frame} {past : List Step} (htells : Tells frame past) {step : Step}
    (hcrash : step ≠ .crash) : Tells frame (past ++ [step]) := by
  have hsound := htells.sound.step hcrash
  obtain ⟨htriggers, hevents, hleads⟩ := deedsOf_spec hsound.alive
  refine ⟨?_, ?_, ?_, ?_⟩
  · rw [play_concat]
    exact hsound
  · rw [history_concat, fired_concat, List.map_append, htells.triggers, htriggers]
  · rw [history_concat, run_concat]
    intro deed hdeed event hevent
    rcases List.mem_append.mp hdeed with hold | hnew
    · obtain ⟨answer, hanswer, hmem⟩ := htells.events deed hold event hevent
      exact ⟨answer, List.mem_append_left _ hanswer, hmem⟩
    · exact ⟨_, List.mem_append_right _ (List.mem_singleton_self _),
        hevents deed hnew event hevent⟩
  · rw [history_concat, play_concat]
    exact Deed.leads_append.mpr ⟨_, htells.leads, hleads⟩

theorem tells (frame : Frame) {past : List Step} (hcrash : .crash ∉ past) : Tells frame past := by
  induction past using List.reverseRecOn with
  | nil => exact ⟨⟨rfl, nofun⟩, rfl, nofun, rfl⟩
  | append_singleton past step ih =>
      rw [List.mem_append, List.mem_singleton, not_or] at hcrash
      exact (ih hcrash.1).concat (Ne.symm hcrash.2)

/-- A text that is recorded after some steps was drawn and recorded for a cue, and if
the hide of the same cue has fired, the display refused it. -/
theorem Tells.exists_cue {frame : Frame} {past : List Step} (htells : Tells frame past)
    {text : String} (htext : text ∈ ((opening frame).play past).board.shown.texts) :
    ∃ (id : Nat) (cue : Cue), (scheduled past)[id]? = some cue ∧ cue.text = text ∧
      (∃ deed ∈ (opening frame).history past, deed.trigger = cue.showTrigger id ∧
        deed.mark = .drawn text (cue.placement.getD .centered)) ∧
      ∀ deed ∈ (opening frame).history past, deed.trigger = cue.hideTrigger id →
        deed.Spares text := by
  have hfollows := follows_play ⟨frame, {}, {}⟩ past
  refine Deed.exists_cue_of_leads htells.leads ?_ ?_ htext
  · rw [htells.triggers]
    intro trigger htrigger
    exact hfollows.mem_scheduled htrigger
  · rw [htells.triggers]
    exact hfollows.ledger.fired_inTurn

/-- A text was drawn and recorded for a cue whose hide was cancelled before it fired or
was refused by the display. -/
def Explained (frame : Frame) (past : List Step) (text : String) : Prop :=
  ∃ (id : Nat) (cue : Cue), (scheduled past)[id]? = some cue ∧ cue.text = text ∧
    (∃ deed ∈ (opening frame).history past, deed.trigger = cue.showTrigger id ∧
      deed.mark = .drawn text (cue.placement.getD .centered)) ∧
    (Cancelled past id ∧ cue.hideTrigger id ∉ (opening frame).fired past ∨
      ∃ deed ∈ (opening frame).history past, deed.trigger = cue.hideTrigger id ∧
        deed.Spares text)

theorem Tells.explained {frame : Frame} {past : List Step}
    (htells : Tells frame (past ++ [.finish])) {text : String}
    (htext : text ∈ ((opening frame).play (past ++ [.finish])).board.shown.texts) :
    Explained frame (past ++ [.finish]) text := by
  obtain ⟨id, cue, hcue, hsame, hdrawn, hspares⟩ := htells.exists_cue htext
  refine ⟨id, cue, hcue, hsame, hdrawn, ?_⟩
  by_cases hhide : cue.hideTrigger id ∈ (opening frame).fired (past ++ [.finish])
  · rw [← htells.triggers] at hhide
    obtain ⟨deed, hdeed, htrigger⟩ := List.mem_map.mp hhide
    exact .inr ⟨deed, hdeed, htrigger, hspares deed hdeed htrigger⟩
  -- At the end only a cancelled hide has not fired.
  · refine .inl ⟨cancelled_concat.mpr (.inl ?_), hhide⟩
    by_contra hcancelled
    rw [fired_concat] at hhide
    refine hhide ((follows_play _ past).mem_append_fired_finish ?_ hcancelled)
    rw [scheduled_concat] at hcue
    have hcues : Step.finish.cues = [] := rfl
    rw [hcues, List.append_nil] at hcue
    exact Trigger.hideTrigger_mem_ofCues hcue

/-- Nothing is left on the board without a reason, and nothing at all if no cue was
cancelled and the display took every call. -/
theorem leftover_explained (frame : Frame) {past : List Step} (hcrash : .crash ∉ past) :
    ∃ shown, (((opening frame).play past).step .finish).1.result = .finished shown ∧
      (∀ text ∈ shown.texts, Explained frame (past ++ [.finish]) text) ∧
      ((∀ id, ¬ Cancelled past id) →
        (∀ answer ∈ (opening frame).run (past ++ [.finish]),
          ∀ event ∈ answer.events, ¬ event.isRefusal) → shown = {}) := by
  have htells : Tells frame (past ++ [.finish]) := tells frame (by simp [hcrash])
  have hexplained : ∀ text ∈ (((opening frame).play past).step .finish).2.board.shown.texts,
      Explained frame (past ++ [.finish]) text := by
    rw [← play_concat]
    intro text htext
    exact htells.explained htext
  refine ⟨_, ?_, hexplained, ?_⟩
  · have halive := htells.sound.alive
    rw [play_concat] at halive
    exact result_finish halive
  · intro hcancelled hrefusal
    refine Shown.eq_empty ?_
    intro text htext
    obtain ⟨id, cue, _, _, _, ⟨hid, _⟩ | ⟨deed, hdeed, _, fault, hfault⟩⟩ := hexplained text htext
    · rcases cancelled_concat.mp hid with hid | ⟨heq, _⟩
      · exact hcancelled id hid
      · cases heq
    · obtain ⟨answer, hanswer, hevent⟩ := htells.events deed hdeed _ hfault
      exact hrefusal answer hanswer _ hevent rfl

theorem leftover_explained_refused :
    Step.crash ∉ [.schedule "00:00 00:01 Hi", .visible, .failAfter (some 1)] ∧
      Explained ⟨⟨80, 24⟩, 20, 6, 59, 17⟩
        [.schedule "00:00 00:01 Hi", .visible, .failAfter (some 1), .finish] "Hi" := by
  have hcrash : Step.crash ∉ [.schedule "00:00 00:01 Hi", .visible, .failAfter (some 1)] := by
    simp
  obtain ⟨shown, hresult, hexplained, _⟩ :=
    leftover_explained ⟨⟨80, 24⟩, 20, 6, 59, 17⟩ hcrash
  refine ⟨hcrash, hexplained "Hi" ?_⟩
  have hshown : shown = ⟨[("Hi", .centered)]⟩ := by
    cases hresult
    rfl
  rw [hshown]
  decide

end Captions.Session
