import Captions.Proofs.Session.Accounting
import Captions.Proofs.Session.Leftover
import Captions.Proofs.Session.Replay

/-! # What is visible at a time

If nothing is cancelled and the display takes every call, what has fired depends on the
clock alone, and so does what is visible: the cues that are on at that time.
-/

namespace Captions

/-- The time is not before the cue appears, and before it disappears. -/
def Cue.IsOn (cue : Cue) (time : Nat) : Prop :=
  cue.showAt ≤ time ∧ time < cue.hideAt

instance (cue : Cue) (time : Nat) : Decidable (cue.IsOn time) :=
  inferInstanceAs (Decidable (_ ∧ _))

namespace Recorder

/-- The recorder carries out every call. -/
def IsWorking (recorder : Recorder) : Prop :=
  recorder.health = .working

theorem IsWorking.isReliable {recorder : Recorder} (hworking : recorder.IsWorking) :
    Display.IsReliable recorder := by
  obtain ⟨written, health⟩ := recorder
  cases hworking
  intro calls
  rw [carryOut_working]

theorem guards_isWorking : Display.Guards IsWorking := by
  intro recorder call hworking
  obtain ⟨written, health⟩ := recorder
  cases hworking
  exact ⟨nofun, rfl⟩

end Recorder

namespace Session

/-- The step schedules cues or plays them. -/
def Step.IsOrdinary : Step → Prop
  | .schedule _ | .ingest _ | .advance _ | .visible => True
  | .cancel _ | .failAfter _ | .crash | .finish => False

/-- The time that the clock is to reach in a step. -/
def Step.time : Step → Nat
  | .advance time => time
  | _ => 0

/-- The latest time that the clock was to reach. -/
def clockAfter (past : List Step) : Nat :=
  (past.map Step.time).foldl max 0

theorem clockAfter_concat (past : List Step) (step : Step) :
    clockAfter (past ++ [step]) = max (clockAfter past) step.time := by
  rw [clockAfter, List.map_append, List.foldl_append]
  rfl

variable {past : List Step} {step : Step}

theorem forall_isOrdinary_concat :
    (∀ other ∈ past ++ [step], other.IsOrdinary) ↔
      (∀ other ∈ past, other.IsOrdinary) ∧ step.IsOrdinary := by
  rw [List.forall_mem_append, List.forall_mem_singleton]

theorem clock_step_of_isOrdinary (session : Session Recorder) (hstep : step.IsOrdinary) :
    (session.step step).2.clock = max session.clock step.time := by
  by_cases hfires : step.fires
  · rw [(step_of_fires session hfires).2.2]
    cases step with
    | advance time => rfl
    | visible => exact (Nat.max_zero _).symm
    | finish => cases hstep
    | schedule | ingest | cancel | failAfter | crash => cases hfires
  · rw [(step_of_not_fires session hfires).2.1]
    cases step with
    | advance | visible => exact absurd rfl hfires
    | schedule | ingest => exact (Nat.max_zero _).symm
    | cancel | failAfter | crash | finish => cases hstep

theorem clock_play (board : Board Recorder) (hpast : ∀ step ∈ past, step.IsOrdinary) :
    ((start board).play past).clock = clockAfter past := by
  induction past using List.reverseRecOn with
  | nil => rfl
  | append_singleton past step ih =>
      obtain ⟨hbefore, hstep⟩ := forall_isOrdinary_concat.mp hpast
      rw [play_concat, clock_step_of_isOrdinary _ hstep, ih hbefore, clockAfter_concat]

theorem not_cancelled_of_isOrdinary (hpast : ∀ step ∈ past, step.IsOrdinary) (id : Nat) :
    ¬ Cancelled past id := by
  rintro ⟨before, after, rfl, _⟩
  exact hpast (.cancel id) (by simp)

/-- Nothing fires before its time. -/
theorem due_le_clock (board : Board Recorder) (past : List Step) {trigger : Trigger}
    (hmem : trigger ∈ (start board).fired past) :
    trigger.due ≤ ((start board).play past).clock := by
  induction past using List.reverseRecOn with
  | nil => cases hmem
  | append_singleton past step ih =>
      rw [fired_concat] at hmem
      rw [play_concat]
      rcases List.mem_append.mp hmem with hold | hnew
      · exact Nat.le_trans (ih hold) (clock_le_clock_step _ step)
      · have hfires := Follows.fires_of_mem_fired hnew
        exact (((follows_play board past).mem_fired_of_fires hfires).mp hnew).2

/-- By a step that fires everything has fired that is due then, and nothing else. -/
theorem mem_fired_iff_due (board : Board Recorder) (hpast : ∀ step ∈ past, step.IsOrdinary)
    (hstep : step.IsOrdinary) (hfires : step.fires) {trigger : Trigger} :
    trigger ∈ (start board).fired (past ++ [step]) ↔
      trigger ∈ Trigger.ofCues 0 (scheduled past) ∧
        trigger.due ≤ clockAfter (past ++ [step]) := by
  have hfollows := follows_play board past
  have hclock := clock_play board (forall_isOrdinary_concat.mpr ⟨hpast, hstep⟩)
  rw [← hclock]
  constructor
  · intro hmem
    refine ⟨?_, due_le_clock board _ hmem⟩
    rw [fired_concat] at hmem
    rcases List.mem_append.mp hmem with hold | hnew
    · exact hfollows.mem_scheduled hold
    · exact ((hfollows.mem_fired_of_fires hfires).mp hnew).1.1
  · rintro ⟨harmed, hdue⟩
    rw [play_concat] at hdue
    rw [fired_concat]
    exact hfollows.mem_append_fired_of_due hfires harmed
      (not_cancelled_of_isOrdinary hpast trigger.cue) hdue

/-- A session without rehearsed failures keeps its display, and its record is what the
triggers make of it. -/
structure Replays (frame : Frame) (past : List Step) : Prop where
  keeps : ((opening frame).play past).Keeps Recorder.IsWorking
  shown : ((opening frame).play past).board.shown = Trigger.replay {} ((opening frame).fired past)

theorem shown_step_of_keeps {session : Session Recorder}
    (hkeeps : session.Keeps Recorder.IsWorking) (step : Step) :
    (session.step step).2.board.shown =
      Trigger.replay session.board.shown (session.step step).1.fired := by
  by_cases hfires : step.fires
  · obtain ⟨time, _, hfired, _, hsession⟩ := exists_advance_of_fires session hfires
    rw [hfired, hsession]
    have hworking : (session.mapDisplay Recorder.rewind).board.display.IsWorking := hkeeps.display
    have hrewound : (session.mapDisplay Recorder.rewind).Keeps Display.IsReliable :=
      ⟨hkeeps.alive, hworking.isReliable⟩
    exact shown_advance_of_keeps hrewound time
  · obtain ⟨hfired, _, hshown, _⟩ := step_of_not_fires session hfires
    rw [hfired, hshown]
    rfl

theorem replays (frame : Frame) (hpast : ∀ step ∈ past, step.IsOrdinary) : Replays frame past := by
  induction past using List.reverseRecOn with
  | nil => exact ⟨⟨rfl, rfl⟩, rfl⟩
  | append_singleton past step ih =>
      obtain ⟨hbefore, hstep⟩ := forall_isOrdinary_concat.mp hpast
      obtain ⟨hkeeps, hshown⟩ := ih hbefore
      refine ⟨?_, ?_⟩
      · rw [play_concat]
        refine hkeeps.step Recorder.guards_isWorking (fun _ hworking => hworking) ?_ ?_
        · rintro rfl
          exact hstep
        · rintro limit rfl
          exact hstep
      · rw [play_concat, fired_concat, Trigger.replay_append, shown_step_of_keeps hkeeps, hshown]

theorem result_of_alive {session : Session Recorder}
    (hstep : step = .visible ∨ ∃ time, step = .advance time)
    (halive : (session.step step).2.alive) :
    (session.step step).1.result = .visible (session.step step).2.board.shown.texts := by
  rcases hstep with rfl | ⟨time, rfl⟩
  · exact congrArg Result.visible (if_pos halive)
  · exact congrArg Result.visible (if_pos halive)

/-- A text stands exactly where a cue puts it that is on and can be drawn. -/
theorem find?_shown_eq_some_iff (frame : Frame) (hpast : ∀ step ∈ past, step.IsOrdinary)
    (hstep : step.IsOrdinary) (hfires : step.fires)
    (htexts : ((scheduled past).map Cue.text).Nodup) {text : String} {placement : Placement} :
    ((opening frame).play (past ++ [step])).board.shown.find? text = some placement ↔
      ∃ cue ∈ scheduled past, cue.IsDrawable ∧ cue.IsOn (clockAfter (past ++ [step])) ∧
        cue.text = text ∧ cue.placement.getD .centered = placement := by
  have hall := forall_isOrdinary_concat.mpr ⟨hpast, hstep⟩
  have hfired : ∀ trigger, trigger ∈ (opening frame).fired (past ++ [step]) ↔
      trigger ∈ Trigger.ofCues 0 (scheduled past) ∧
        trigger.due ≤ clockAfter (past ++ [step]) := by
    intro trigger
    exact mem_fired_iff_due ⟨frame, {}, {}⟩ hpast hstep hfires
  have hcues : ∀ trigger ∈ (opening frame).fired (past ++ [step]),
      trigger ∈ Trigger.ofCues 0 (scheduled past) := by
    intro trigger hmem
    exact ((hfired trigger).mp hmem).1
  have hturn : Trigger.InTurn ((opening frame).fired (past ++ [step])) :=
    (follows_play ⟨frame, {}, {}⟩ (past ++ [step])).ledger.fired_inTurn
  rw [(replays frame hall).shown, Trigger.find?_replay_of_nodup hcues hturn htexts]
  constructor
  · rintro ⟨id, cue, hcue, hdrawable, htext, hplacement, hshow, hhide⟩
    have hlate : ¬ cue.hideAt ≤ clockAfter (past ++ [step]) := by
      intro hdue
      exact hhide ((hfired _).mpr ⟨Trigger.hideTrigger_mem_ofCues hcue, hdue⟩)
    exact ⟨cue, List.mem_of_getElem? hcue, hdrawable,
      ⟨((hfired _).mp hshow).2, Nat.not_le.mp hlate⟩, htext, hplacement⟩
  · rintro ⟨cue, hmem, hdrawable, ⟨hshow, hhide⟩, htext, hplacement⟩
    obtain ⟨id, hcue⟩ := List.getElem?_of_mem hmem
    refine ⟨id, cue, hcue, hdrawable, htext, hplacement, ?_, ?_⟩
    · exact (hfired _).mpr ⟨Trigger.showTrigger_mem_ofCues hcue, hshow⟩
    · intro hhidden
      exact Nat.not_le.mpr hhide ((hfired _).mp hhidden).2

/-- What is visible follows the clock: at any time it is the texts of the cues that are on
and can be drawn, each at the place of its cue. -/
theorem visible_follows_clock (frame : Frame) {past : List Step} {step : Step}
    (hpast : ∀ other ∈ past, other.IsOrdinary)
    (hstep : step = .visible ∨ ∃ time, step = .advance time)
    (htexts : ((scheduled past).map Cue.text).Nodup) :
    ∃ texts, (((opening frame).play past).step step).1.result = .visible texts ∧
      texts.Pairwise (· < ·) ∧
      (∀ text, text ∈ texts ↔
        ∃ cue ∈ scheduled past, cue.text = text ∧ cue.IsDrawable ∧
          cue.IsOn (clockAfter (past ++ [step]))) ∧
      ∀ cue ∈ scheduled past, cue.text ∈ texts →
        (((opening frame).play past).step step).2.board.shown.find? cue.text =
          some (cue.placement.getD .centered) := by
  obtain ⟨hordinary, hfires⟩ : step.IsOrdinary ∧ step.fires := by
    rcases hstep with rfl | ⟨time, rfl⟩
    · exact ⟨trivial, rfl⟩
    · exact ⟨trivial, rfl⟩
  have hreplays := replays frame (forall_isOrdinary_concat.mpr ⟨hpast, hordinary⟩)
  have halive := hreplays.keeps.alive
  have hsorted : ((opening frame).play (past ++ [step])).board.shown.IsSorted := by
    rw [hreplays.shown]
    exact Trigger.isSorted_replay Shown.isSorted_empty _
  have hplace : ∀ {text placement},
      ((opening frame).play (past ++ [step])).board.shown.find? text = some placement ↔
        ∃ cue ∈ scheduled past, cue.IsDrawable ∧ cue.IsOn (clockAfter (past ++ [step])) ∧
          cue.text = text ∧ cue.placement.getD .centered = placement :=
    find?_shown_eq_some_iff frame hpast hordinary hfires htexts
  rw [play_concat] at halive hsorted hplace
  refine ⟨_, result_of_alive hstep halive, hsorted, ?_, ?_⟩
  · intro text
    rw [Shown.mem_texts, Option.ne_none_iff_exists']
    constructor
    · rintro ⟨placement, hstands⟩
      obtain ⟨cue, hmem, hdrawable, hon, htext, _⟩ := hplace.mp hstands
      exact ⟨cue, hmem, htext, hdrawable, hon⟩
    · rintro ⟨cue, hmem, htext, hdrawable, hon⟩
      exact ⟨_, hplace.mpr ⟨cue, hmem, hdrawable, hon, htext, rfl⟩⟩
  · intro cue hmem htext
    obtain ⟨placement, hstands⟩ := Option.ne_none_iff_exists'.mp (Shown.mem_texts.mp htext)
    obtain ⟨other, hother, _, _, hsame, rfl⟩ := hplace.mp hstands
    -- Only the cue itself has this text.
    rw [hstands, List.inj_on_of_nodup_map htexts hother hmem hsame]

theorem visible_follows_clock_late_cue :
    ∃ texts, (((opening ⟨⟨80, 24⟩, 20, 6, 59, 17⟩).play
        [.advance 3000, .schedule "00:02 00:04 Late [Left, Red]", .schedule "00:01 00:03 Gone",
          .schedule "00:00 00:09 Never [Top, Beige]"]).step .visible).1.result = .visible texts ∧
      "Late" ∈ texts ∧ "Gone" ∉ texts ∧ "Never" ∉ texts := by
  have hordinary : ∀ step ∈ [Step.advance 3000, .schedule "00:02 00:04 Late [Left, Red]",
      .schedule "00:01 00:03 Gone", .schedule "00:00 00:09 Never [Top, Beige]"],
      step.IsOrdinary := by
    simp [Step.IsOrdinary]
  obtain ⟨texts, hresult, _, hvisible, _⟩ :=
    visible_follows_clock ⟨⟨80, 24⟩, 20, 6, 59, 17⟩ hordinary (.inl rfl) (by decide)
  refine ⟨texts, hresult, ?_⟩
  simp only [hvisible]
  decide

end Session

end Captions
