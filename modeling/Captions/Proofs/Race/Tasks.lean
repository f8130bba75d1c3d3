import Captions.Proofs.Race.Basic

/-! # The tasks of a race

A trigger was sent exactly if its task has run. Scheduling, sending and cancelling
keep that, and they keep the two triggers of a cue in turn.
-/

namespace Captions

namespace CueTasks

/-- The tasks of a cue have run exactly if their triggers were sent, and the hide did
not run before the show was over. -/
structure Agrees (id : Nat) (sent : List Trigger) (tasks : CueTasks) : Prop where
  show_iff : tasks.cue.showTrigger id ∈ sent ↔ tasks.showTask = .ran
  hide_iff : tasks.cue.hideTrigger id ∈ sent ↔ tasks.hideTask = .ran
  handshake : tasks.hideTask = .ran → tasks.showTask ≠ .armed

theorem Agrees.concat {id : Nat} {sent : List Trigger} {tasks : CueTasks} {trigger : Trigger}
    (hagrees : tasks.Agrees id sent) (hother : trigger.cue ≠ id) :
    tasks.Agrees id (sent ++ [trigger]) := by
  have hmem : ∀ own : Trigger, own.cue = id → (own ∈ sent ++ [trigger] ↔ own ∈ sent) := by
    intro own hown
    rw [List.mem_append, List.mem_singleton]
    refine or_iff_left ?_
    rintro rfl
    exact hother hown
  refine ⟨?_, ?_, hagrees.handshake⟩
  · rw [hmem _ rfl]
    exact hagrees.show_iff
  · rw [hmem _ rfl]
    exact hagrees.hide_iff

theorem Agrees.abort {id : Nat} {sent : List Trigger} {tasks : CueTasks}
    (hagrees : tasks.Agrees id sent) : tasks.abort.Agrees id sent := by
  have hran : ∀ state : TaskState, state.abort = .ran ↔ state = .ran := by
    intro state
    cases state <;> simp [TaskState.abort]
  have harmed : ∀ state : TaskState, state.abort ≠ .armed := by
    intro state
    cases state <;> simp [TaskState.abort]
  refine ⟨?_, ?_, ?_⟩
  · exact hagrees.show_iff.trans (hran _).symm
  · exact hagrees.hide_iff.trans (hran _).symm
  · intro _
    exact harmed _

theorem Agrees.sendShow {id : Nat} {sent : List Trigger} {tasks : CueTasks}
    (hagrees : tasks.Agrees id sent) :
    ({ tasks with showTask := .ran } : CueTasks).Agrees id
      (sent ++ [tasks.cue.showTrigger id]) := by
  have hne := (tasks.cue.showTrigger_ne_hideTrigger id).symm
  refine ⟨?_, ?_, ?_⟩
  · simp
  · simp [hne, hagrees.hide_iff]
  · intro _ harmed
    cases harmed

theorem Agrees.sendHide {id : Nat} {sent : List Trigger} {tasks : CueTasks}
    (hagrees : tasks.Agrees id sent) (hshown : tasks.showTask ≠ .armed) :
    ({ tasks with hideTask := .ran } : CueTasks).Agrees id
      (sent ++ [tasks.cue.hideTrigger id]) := by
  have hne := tasks.cue.showTrigger_ne_hideTrigger id
  refine ⟨?_, ?_, ?_⟩
  · simp [hne, hagrees.show_iff]
  · simp
  · intro _
    exact hshown

/-- What the tasks of cues owe to the triggers sent so far. -/
structure Tracks (cues : List Cue) (sent : List Trigger) (all : List CueTasks) : Prop where
  cues_eq : all.map CueTasks.cue = cues
  agrees : ∀ (id : Nat) (tasks : CueTasks), all[id]? = some tasks → tasks.Agrees id sent
  owned : ∀ trigger ∈ sent, trigger ∈ Trigger.ofCues 0 cues
  inTurn : Trigger.InTurn sent

namespace Tracks

variable {cues : List Cue} {sent : List Trigger} {all : List CueTasks}

theorem cue_getElem? (htracks : Tracks cues sent all) {id : Nat} {tasks : CueTasks}
    (htasks : all[id]? = some tasks) : cues[id]? = some tasks.cue := by
  rw [← htracks.cues_eq, List.getElem?_map, htasks]
  rfl

/-- A trigger of a cue that was sent is one of the two that its tasks send. -/
theorem mem_pair (htracks : Tracks cues sent all) {id : Nat} {tasks : CueTasks}
    (htasks : all[id]? = some tasks) {trigger : Trigger} (hsent : trigger ∈ sent)
    (hid : trigger.cue = id) : trigger ∈ Trigger.pair id tasks.cue := by
  obtain ⟨cue, hcue, hpair⟩ := Trigger.mem_ofCues_zero.mp (htracks.owned trigger hsent)
  rw [hid, htracks.cue_getElem? htasks] at hcue
  cases hcue
  rwa [hid] at hpair

theorem cues_set (htracks : Tracks cues sent all) {id : Nat} {tasks changed : CueTasks}
    (htasks : all[id]? = some tasks) (hcue : changed.cue = tasks.cue) :
    (all.set id changed).map CueTasks.cue = cues := by
  rw [List.map_set, htracks.cues_eq, hcue]
  obtain ⟨hlength, hget⟩ := List.getElem?_eq_some_iff.mp (htracks.cue_getElem? htasks)
  rw [← hget]
  exact List.set_getElem_self hlength

theorem agrees_set (htracks : Tracks cues sent all) {id : Nat} {changed : CueTasks}
    {triggers : List Trigger} (hchanged : changed.Agrees id triggers)
    (hothers : ∀ (other : Nat) (tasks : CueTasks), other ≠ id → tasks.Agrees other sent →
      tasks.Agrees other triggers)
    (other : Nat) (tasks : CueTasks) (htasks : (all.set id changed)[other]? = some tasks) :
    tasks.Agrees other triggers := by
  rw [List.getElem?_set] at htasks
  split at htasks
  next heq =>
    subst heq
    split at htasks
    next =>
      cases htasks
      exact hchanged
    next => cases htasks
  next hne => exact hothers other tasks (Ne.symm hne) (htracks.agrees other tasks htasks)

theorem schedule (htracks : Tracks cues sent all) (cue : Cue) :
    Tracks (cues ++ [cue]) sent (all ++ [{ cue := cue }]) := by
  have hlength : all.length = cues.length := by
    rw [← htracks.cues_eq, List.length_map]
  -- No trigger was sent under the number of a cue that is only now scheduled.
  have hnone : ∀ trigger ∈ sent, trigger.cue ≠ all.length := by
    intro trigger hsent hcue
    obtain ⟨owner, howner, _⟩ := Trigger.mem_ofCues_zero.mp (htracks.owned trigger hsent)
    rw [hcue, hlength, List.getElem?_eq_none (Nat.le_refl _)] at howner
    cases howner
  refine ⟨?_, ?_, ?_, htracks.inTurn⟩
  · rw [List.map_append, htracks.cues_eq]
    rfl
  · intro id tasks htasks
    rw [List.getElem?_append] at htasks
    split at htasks
    next => exact htracks.agrees id tasks htasks
    next hle =>
      have hid : id = all.length := by
        have hlt := (List.getElem?_eq_some_iff.mp htasks).1
        rw [List.length_singleton] at hlt
        omega
      rw [hid, Nat.sub_self] at htasks
      cases htasks
      refine ⟨?_, ?_, ?_⟩
      · refine iff_of_false ?_ nofun
        intro hsent
        exact hnone _ hsent hid
      · refine iff_of_false ?_ nofun
        intro hsent
        exact hnone _ hsent hid
      · intro hran
        cases hran
  · intro trigger hsent
    obtain ⟨owner, howner, hpair⟩ := Trigger.mem_ofCues_zero.mp (htracks.owned trigger hsent)
    refine Trigger.mem_ofCues_zero.mpr ⟨owner, ?_, hpair⟩
    rw [List.getElem?_append_left (List.getElem?_eq_some_iff.mp howner).1]
    exact howner

theorem cancel (htracks : Tracks cues sent all) {id : Nat} {tasks : CueTasks}
    (htasks : all[id]? = some tasks) : Tracks cues sent (all.set id tasks.abort) := by
  refine ⟨htracks.cues_set htasks rfl, ?_, htracks.owned, htracks.inTurn⟩
  refine htracks.agrees_set (htracks.agrees id tasks htasks).abort ?_
  intro other unchanged _ hagrees
  exact hagrees

/-- A task sends its trigger after all others of its cue. -/
theorem send (htracks : Tracks cues sent all) {id : Nat} {tasks changed : CueTasks}
    (htasks : all[id]? = some tasks) {trigger : Trigger}
    (hchanged : changed.Agrees id (sent ++ [trigger])) (hcue : changed.cue = tasks.cue)
    (hpair : trigger ∈ Trigger.pair id tasks.cue)
    (hlast : ∀ other ∈ sent, other ∈ Trigger.pair id tasks.cue → other.rank < trigger.rank) :
    Tracks cues (sent ++ [trigger]) (all.set id changed) := by
  have hid : trigger.cue = id := Trigger.cue_of_mem_pair hpair
  refine ⟨htracks.cues_set htasks hcue, ?_, ?_, ?_⟩
  · refine htracks.agrees_set hchanged ?_
    intro other unchanged hne hagrees
    exact hagrees.concat (by rw [hid]; exact Ne.symm hne)
  · intro other hother
    rcases List.mem_append.mp hother with hother | hother
    · exact htracks.owned other hother
    · rw [List.mem_singleton.mp hother]
      refine Trigger.mem_ofCues_zero.mpr ⟨tasks.cue, ?_, ?_⟩
      · rw [hid]
        exact htracks.cue_getElem? htasks
      · rwa [hid]
  · refine htracks.inTurn.concat ?_
    intro other hother hsame
    exact hlast other hother (htracks.mem_pair htasks hother (hsame.trans hid))

theorem sendShow (htracks : Tracks cues sent all) {id : Nat} {tasks : CueTasks}
    (htasks : all[id]? = some tasks) (harmed : tasks.showTask = .armed) :
    Tracks cues (sent ++ [tasks.cue.showTrigger id])
      (all.set id { tasks with showTask := .ran }) := by
  have hagrees := htracks.agrees id tasks htasks
  refine htracks.send htasks hagrees.sendShow rfl (Trigger.mem_pair.mpr (.inl rfl)) ?_
  -- The show is the first of its cue: the hide has waited for it.
  intro other hother hpair
  rcases Trigger.mem_pair.mp hpair with rfl | rfl
  · rw [hagrees.show_iff, harmed] at hother
    cases hother
  · exact absurd harmed (hagrees.handshake (hagrees.hide_iff.mp hother))

theorem sendHide (htracks : Tracks cues sent all) {id : Nat} {tasks : CueTasks}
    (htasks : all[id]? = some tasks) (harmed : tasks.hideTask = .armed)
    (hshown : tasks.showTask ≠ .armed) :
    Tracks cues (sent ++ [tasks.cue.hideTrigger id])
      (all.set id { tasks with hideTask := .ran }) := by
  have hagrees := htracks.agrees id tasks htasks
  refine htracks.send htasks (hagrees.sendHide hshown) rfl (Trigger.mem_pair.mpr (.inr rfl)) ?_
  intro other hother hpair
  rcases Trigger.mem_pair.mp hpair with rfl | rfl
  · rw [Cue.rank_showTrigger, Cue.rank_hideTrigger]
    exact Nat.lt_succ_self _
  · rw [hagrees.hide_iff, harmed] at hother
    cases hother

end Tracks

end CueTasks

end Captions
