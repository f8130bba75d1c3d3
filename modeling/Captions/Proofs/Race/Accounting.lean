import Captions.Display.Recorder
import Captions.Proofs.Race.Tasks
import Captions.Proofs.Session.Deeds

/-! # Accounting for the triggers of a race

Whatever the order of the moves, everything that was sent was carried out or is
still in the queue, in the order of sending. Once every task has run and the queue
is empty, nothing is left on the board unless the display refused a call.
-/

namespace Captions.Race

variable {δ : Type} [Display δ]

/-- What the queue, the session and the log of a race owe to the triggers that were
sent and those that were carried out. -/
structure Serves (board : Board δ) (sent applied queue : List Trigger) (session : Session δ)
    (events : List Event) : Prop where
  sent_eq : sent = applied ++ queue
  session_eq : ∃ clock, session =
    { ((Session.start board).actAll applied).2 with clock, agenda := {} }
  events_eq : events = ((Session.start board).actAll applied).1

namespace Serves

variable {board : Board δ} {sent applied queue : List Trigger} {session : Session δ}
  {events : List Event}

theorem tick (hserves : Serves board sent applied queue session events) (time : Nat) :
    Serves board sent applied queue { session with clock := time } events := by
  obtain ⟨hsent, ⟨clock, hsession⟩, hevents⟩ := hserves
  exact ⟨hsent, ⟨time, by rw [hsession]⟩, hevents⟩

theorem send (hserves : Serves board sent applied queue session events) (trigger : Trigger) :
    Serves board (sent ++ [trigger]) applied (queue ++ [trigger]) session events := by
  obtain ⟨hsent, hsession, hevents⟩ := hserves
  exact ⟨by rw [hsent, List.append_assoc], hsession, hevents⟩

theorem apply {trigger : Trigger} {rest : List Trigger}
    (hserves : Serves board sent applied (trigger :: rest) session events)
    (halive : session.alive) :
    Serves board sent (applied ++ [trigger]) rest (session.act trigger.action).2
      (events ++ (session.act trigger.action).1) := by
  obtain ⟨hsent, ⟨clock, hsession⟩, hevents⟩ := hserves
  rw [hsession] at halive ⊢
  have hlast : ((Session.start board).actAll applied).2.actAll [trigger] =
      ((Session.start board).actAll applied).2.act trigger.action := by
    simp only [Session.actAll, List.append_nil]
    exact if_pos halive
  refine ⟨?_, ⟨clock, ?_⟩, ?_⟩
  · rw [hsent, List.append_cons]
  · rw [Session.actAll_append, hlast, Session.act_with]
  · rw [Session.actAll_append, hlast, Session.act_with, hevents]

end Serves

/-- Everything that is accounted for in a race. -/
structure Accounts (board : Board δ) (past : List Move) (race : Race δ) : Prop where
  tracks : CueTasks.Tracks (scheduled past) (sent past) race.tasks
  serves : Serves board (sent past) (applied past) race.queue race.session race.events

theorem accounts_start (board : Board δ) : Accounts board [] (start board) where
  tracks := ⟨rfl, nofun, nofun, .nil⟩
  serves := ⟨rfl, ⟨0, rfl⟩, rfl⟩

/-- Every move keeps the account. -/
theorem Accounts.step {board : Board δ} {past : List Move} {race next : Race δ} {move : Move}
    (haccounts : Accounts board past race) (hstep : Step race move next) :
    Accounts board (past ++ [move]) next := by
  obtain ⟨htracks, hserves⟩ := haccounts
  cases hstep with
  | schedule cue =>
      refine ⟨?_, ?_⟩
      · simpa [scheduled, sent] using htracks.schedule cue
      · simpa [sent, applied] using hserves
  | tick hclock =>
      refine ⟨?_, ?_⟩
      · simpa [scheduled, sent] using htracks
      · simpa [sent, applied] using hserves.tick _
  | sendShow htasks harmed hdue =>
      refine ⟨?_, ?_⟩
      · simpa [scheduled, sent] using htracks.sendShow htasks harmed
      · simpa [sent, applied] using hserves.send _
  | sendHide htasks harmed hdue hshown =>
      refine ⟨?_, ?_⟩
      · simpa [scheduled, sent] using htracks.sendHide htasks harmed hshown
      · simpa [sent, applied] using hserves.send _
  | cancel htasks =>
      refine ⟨?_, ?_⟩
      · simpa [scheduled, sent] using htracks.cancel htasks
      · simpa [sent, applied] using hserves
  | apply hqueue halive =>
      rw [hqueue] at hserves
      refine ⟨?_, ?_⟩
      · simpa [scheduled, sent] using htracks
      · simpa [sent, applied] using hserves.apply halive

theorem Run.accounts {board : Board δ} {moves : List Move} {race : Race δ}
    (hrun : Run (start board) moves race) : Accounts board moves race := by
  refine Run.invariant ?_ (accounts_start board) hrun
  intro past race move next haccounts hstep
  exact haccounts.step hstep

/-- Once all tasks of a race have run and the queue is empty, a text is left on the
board only if the display refused to erase it. -/
theorem Accounts.refusal_of_mem_texts {frame : Frame} {display : δ} {moves : List Move}
    {race : Race δ} (haccounts : Accounts ⟨frame, display, {}⟩ moves race)
    (hran : ∀ tasks ∈ race.tasks, tasks.hideTask = .ran) (hqueue : race.queue = [])
    (halive : race.session.alive) {text : String} (htext : text ∈ race.session.board.shown.texts) :
    ∃ fault, Event.failedToHide text (.display fault) ∈ race.events := by
  obtain ⟨htracks, hsent, ⟨clock, hsession⟩, hevents⟩ := haccounts
  rw [hqueue, List.append_nil] at hsent
  rw [hsession] at halive htext
  have hleads := Session.leads_deeds halive
  have htriggers := Session.map_trigger_deeds halive
  rw [hevents, Session.events_actAll]
  generalize (Session.start ⟨frame, display, {}⟩).deeds (applied moves) = deeds
    at hleads htriggers ⊢
  rw [← hsent] at htriggers
  obtain ⟨id, cue, hcue, rfl, _, hspares⟩ := Deed.exists_cue_of_leads hleads
    (by rw [htriggers]; exact htracks.owned) (by rw [htriggers]; exact htracks.inTurn) htext
  -- The hide of the cue has been sent, so it is one of the deeds.
  rw [← htracks.cues_eq, List.getElem?_map, Option.map_eq_some_iff] at hcue
  obtain ⟨tasks, htasks, rfl⟩ := hcue
  have hhide := (htracks.agrees id tasks htasks).hide_iff.mpr
    (hran tasks (List.mem_of_getElem? htasks))
  rw [← htriggers] at hhide
  obtain ⟨deed, hdeed, htrigger⟩ := List.mem_map.mp hhide
  obtain ⟨fault, hfault⟩ := hspares deed hdeed htrigger
  exact ⟨fault, List.mem_flatMap.mpr ⟨deed, hdeed, hfault⟩⟩

/-- Tasks that race for the board send each trigger of a cue at most once, not
before its time and the show before the hide. The board carries out all of them in the
order of sending, and a race in which every task has run leaves nothing on it unless
the display fails. -/
theorem Run.delivers {frame : Frame} {display : δ} {moves : List Move} {race : Race δ}
    (hrun : Run (start ⟨frame, display, {}⟩) moves race) :
    (∀ trigger ∈ sent moves, trigger ∈ Trigger.ofCues 0 (scheduled moves)) ∧
    ((sent moves).map Trigger.rank).Nodup ∧
    (∀ before trigger after, moves = before ++ .send trigger :: after →
      ∃ middle next, Run (start ⟨frame, display, {}⟩) before middle ∧
        Step middle (.send trigger) next ∧ Run next after race ∧
        trigger.due ≤ middle.session.clock) ∧
    (∀ (id : Nat) (cue : Cue), cue.showTrigger id ∈ sent moves →
      cue.hideTrigger id ∈ sent moves → (Trigger.pair id cue).Sublist (sent moves)) ∧
    sent moves = applied moves ++ race.queue ∧
    (race.events, race.session.board) =
      (((Session.start ⟨frame, display, {}⟩).actAll (applied moves)).1,
        ((Session.start ⟨frame, display, {}⟩).actAll (applied moves)).2.board) ∧
    ((∀ tasks ∈ race.tasks, tasks.showTask = .ran ∧ tasks.hideTask = .ran) → race.queue = [] →
      race.session.alive → (∀ event ∈ race.events, ¬ event.isRefusal) →
      race.session.board.shown = {}) := by
  have haccounts := hrun.accounts
  refine ⟨haccounts.tracks.owned, haccounts.tracks.inTurn.nodup_rank, ?_, ?_,
    haccounts.serves.sent_eq, ?_, ?_⟩
  · rintro before trigger after rfl
    obtain ⟨middle, hbefore, hrest⟩ := hrun.split
    cases hrest with
    | cons hstep hafter =>
        exact ⟨middle, _, hbefore, hstep, hafter, due_le_clock_of_send hstep⟩
  · intro id cue hshow hhide
    exact haccounts.tracks.inTurn.pair_sublist hshow hhide
  · obtain ⟨_, ⟨clock, hsession⟩, hevents⟩ := haccounts.serves
    rw [hsession, hevents]
  -- A text that is left would have been refused to be erased.
  · intro hran hqueue halive hrefusal
    refine Shown.eq_empty ?_
    intro text htext
    obtain ⟨fault, hfault⟩ := haccounts.refusal_of_mem_texts
      (fun tasks htasks => (hran tasks htasks).2) hqueue halive htext
    exact hrefusal _ hfault rfl

theorem Run.delivers_equal_texts :
    ∃ (early late : Cue) (race : Race Recorder), early.text = late.text ∧
      late.showAt = late.hideAt ∧
      Run (start ⟨⟨⟨80, 24⟩, 20, 6, 59, 17⟩, {}, {}⟩)
        [.schedule early, .schedule late, .tick 5, .send (late.showTrigger 1),
          .send (early.showTrigger 0), .send (early.hideTrigger 0), .apply (late.showTrigger 1),
          .send (late.hideTrigger 1), .apply (early.showTrigger 0),
          .apply (early.hideTrigger 0), .apply (late.hideTrigger 1)] race ∧
      race.queue = [] ∧ race.session.board.shown = {} := by
  have hrun : Run (start (⟨⟨⟨80, 24⟩, 20, 6, 59, 17⟩, {}, {}⟩ : Board Recorder)) _ _ :=
    .cons (.schedule ⟨0, 5, "Hi", none, none⟩) <|
    .cons (.schedule ⟨5, 5, "Hi", some .top, some "red"⟩) <|
    .cons (.tick (Nat.zero_le 5)) <|
    .cons (@Step.sendShow _ _ _ 1 _ rfl rfl (Nat.le_refl 5)) <|
    .cons (@Step.sendShow _ _ _ 0 _ rfl rfl (Nat.zero_le 5)) <|
    .cons (@Step.sendHide _ _ _ 0 _ rfl rfl (Nat.le_refl 5) nofun) <|
    .cons (.apply rfl rfl) <|
    .cons (@Step.sendHide _ _ _ 1 _ rfl rfl (Nat.le_refl 5) nofun) <|
    .cons (.apply rfl rfl) <|
    .cons (.apply rfl rfl) <|
    .cons (.apply rfl rfl) <|
    .nil _
  refine ⟨_, _, _, ?_, ?_, hrun, ?_, ?_⟩
  · rfl
  · rfl
  · rfl
  · refine (Run.delivers hrun).2.2.2.2.2.2 ?_ ?_ ?_ ?_
    · decide
    · rfl
    · rfl
    · decide

end Captions.Race
