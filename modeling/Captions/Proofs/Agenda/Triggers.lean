import Captions.Agenda

/-! # Triggers of numbered cues

The triggers of cues that are numbered one after the other come in the order of
their ranks, so a rank tells which of them a trigger is.
-/

namespace Captions

namespace Cue

/-- The trigger that shows a cue with a given number. -/
def showTrigger (cue : Cue) (id : Nat) : Trigger :=
  ⟨id, cue.showAt, .showCue cue⟩

/-- The trigger that hides a cue with a given number. -/
def hideTrigger (cue : Cue) (id : Nat) : Trigger :=
  ⟨id, cue.hideAt, .hideText cue.text⟩

@[simp] theorem rank_showTrigger (cue : Cue) (id : Nat) : (cue.showTrigger id).rank = 2 * id := rfl

@[simp] theorem rank_hideTrigger (cue : Cue) (id : Nat) :
    (cue.hideTrigger id).rank = 2 * id + 1 := rfl

theorem showTrigger_ne_hideTrigger (cue : Cue) (id : Nat) :
    cue.showTrigger id ≠ cue.hideTrigger id := by
  intro heq
  have hrank := congrArg Trigger.rank heq
  rw [rank_showTrigger, rank_hideTrigger] at hrank
  omega

end Cue

namespace Trigger

theorem mem_pair {trigger : Trigger} {id : Nat} {cue : Cue} :
    trigger ∈ pair id cue ↔ trigger = cue.showTrigger id ∨ trigger = cue.hideTrigger id := by
  simp [pair, Cue.showTrigger, Cue.hideTrigger]

theorem cue_of_mem_pair {trigger : Trigger} {id : Nat} {cue : Cue} (hmem : trigger ∈ pair id cue) :
    trigger.cue = id := by
  rcases mem_pair.mp hmem with rfl | rfl
  · rfl
  · rfl

theorem rank_eq (trigger : Trigger) :
    trigger.rank = 2 * trigger.cue ∨ trigger.rank = 2 * trigger.cue + 1 := by
  unfold rank
  split
  next => exact .inl rfl
  next => exact .inr rfl

theorem cue_eq_of_rank_eq {a b : Trigger} (hrank : a.rank = b.rank) : a.cue = b.cue := by
  have ha := rank_eq a
  have hb := rank_eq b
  omega

/-- Of every cue the show comes before the hide, and neither comes twice. -/
def InTurn (triggers : List Trigger) : Prop :=
  triggers.Pairwise fun a b => a.cue = b.cue → a.rank < b.rank

theorem InTurn.nodup_rank {triggers : List Trigger} (hturn : InTurn triggers) :
    (triggers.map rank).Nodup := by
  refine List.pairwise_map.mpr (hturn.imp ?_)
  intro a b hlt hrank
  exact Nat.ne_of_lt (hlt (cue_eq_of_rank_eq hrank)) hrank

theorem InTurn.showTrigger_mem {before after : List Trigger} {cue : Cue} {id : Nat}
    (hturn : InTurn (before ++ cue.hideTrigger id :: after))
    (hshow : cue.showTrigger id ∈ before ++ cue.hideTrigger id :: after) :
    cue.showTrigger id ∈ before := by
  obtain ⟨_, hafter, _⟩ := List.pairwise_append.mp hturn
  rcases List.mem_append.mp hshow with hmem | hmem
  · exact hmem
  · rcases List.mem_cons.mp hmem with heq | hmem
    · exact absurd heq (cue.showTrigger_ne_hideTrigger id)
    · have hlt := List.rel_of_pairwise_cons hafter hmem rfl
      rw [Cue.rank_hideTrigger, Cue.rank_showTrigger] at hlt
      omega

theorem InTurn.hideTrigger_mem {before after : List Trigger} {cue : Cue} {id : Nat}
    (hturn : InTurn (before ++ cue.showTrigger id :: after))
    (hhide : cue.hideTrigger id ∈ before ++ cue.showTrigger id :: after) :
    cue.hideTrigger id ∈ after := by
  obtain ⟨_, _, hbefore⟩ := List.pairwise_append.mp hturn
  rcases List.mem_append.mp hhide with hmem | hmem
  · have hlt := hbefore _ hmem _ List.mem_cons_self rfl
    rw [Cue.rank_hideTrigger, Cue.rank_showTrigger] at hlt
    omega
  · refine (List.mem_cons.mp hmem).resolve_left ?_
    exact (cue.showTrigger_ne_hideTrigger id).symm

/-- If both triggers of a cue are there, the show stands before the hide. -/
theorem InTurn.pair_sublist {triggers : List Trigger} (hturn : InTurn triggers) {cue : Cue}
    {id : Nat} (hshow : cue.showTrigger id ∈ triggers) (hhide : cue.hideTrigger id ∈ triggers) :
    (pair id cue).Sublist triggers := by
  obtain ⟨before, after, rfl⟩ := List.append_of_mem hhide
  exact (List.singleton_sublist.mpr (hturn.showTrigger_mem hshow)).append
    (List.singleton_sublist.mpr List.mem_cons_self)

theorem InTurn.concat {triggers : List Trigger} {last : Trigger} (hturn : InTurn triggers)
    (hlast : ∀ trigger ∈ triggers, trigger.cue = last.cue → trigger.rank < last.rank) :
    InTurn (triggers ++ [last]) := by
  refine List.pairwise_append.mpr ⟨hturn, List.pairwise_singleton _ _, ?_⟩
  intro trigger htrigger other hother
  rw [List.mem_singleton.mp hother]
  exact hlast trigger htrigger

/-- The triggers of cues that are numbered from `first` on. -/
def ofCues (first : Nat) : List Cue → List Trigger
  | [] => []
  | cue :: rest => pair first cue ++ ofCues (first + 1) rest

theorem mem_ofCues {trigger : Trigger} {first : Nat} {cues : List Cue} :
    trigger ∈ ofCues first cues ↔
      ∃ index cue, cues[index]? = some cue ∧ trigger ∈ pair (first + index) cue := by
  induction cues generalizing first with
  | nil => simp [ofCues]
  | cons cue rest ih =>
      rw [ofCues, List.mem_append, ih]
      constructor
      · rintro (hmem | ⟨index, other, hother, hmem⟩)
        · exact ⟨0, cue, rfl, hmem⟩
        · refine ⟨index + 1, other, hother, ?_⟩
          rwa [show first + (index + 1) = first + 1 + index by omega]
      · rintro ⟨index, other, hother, hmem⟩
        cases index with
        | zero =>
            cases hother
            exact .inl hmem
        | succ index =>
            refine .inr ⟨index, other, hother, ?_⟩
            rwa [show first + 1 + index = first + (index + 1) by omega]

/-- A trigger belongs to a list of cues if its number leads to the cue that it is for. -/
theorem mem_ofCues_zero {trigger : Trigger} {cues : List Cue} :
    trigger ∈ ofCues 0 cues ↔
      ∃ cue, cues[trigger.cue]? = some cue ∧ trigger ∈ pair trigger.cue cue := by
  rw [mem_ofCues]
  constructor
  · rintro ⟨index, cue, hcue, hmem⟩
    rw [Nat.zero_add] at hmem
    rw [cue_of_mem_pair hmem]
    exact ⟨cue, hcue, hmem⟩
  · rintro ⟨cue, hcue, hmem⟩
    exact ⟨trigger.cue, cue, hcue, by rwa [Nat.zero_add]⟩

/-- A show is for one of the cues. -/
theorem mem_cues_of_showCue {trigger : Trigger} {cue : Cue} {cues : List Cue}
    (hmem : trigger ∈ ofCues 0 cues) (haction : trigger.action = .showCue cue) : cue ∈ cues := by
  obtain ⟨own, hown, hpair⟩ := mem_ofCues_zero.mp hmem
  rcases mem_pair.mp hpair with hshow | hhide
  · rw [hshow] at haction
    cases haction
    exact List.mem_of_getElem? hown
  · rw [hhide] at haction
    cases haction

theorem showTrigger_mem_ofCues {id : Nat} {cue : Cue} {cues : List Cue}
    (hcue : cues[id]? = some cue) : cue.showTrigger id ∈ ofCues 0 cues :=
  mem_ofCues_zero.mpr ⟨cue, hcue, mem_pair.mpr (.inl rfl)⟩

theorem hideTrigger_mem_ofCues {id : Nat} {cue : Cue} {cues : List Cue}
    (hcue : cues[id]? = some cue) : cue.hideTrigger id ∈ ofCues 0 cues :=
  mem_ofCues_zero.mpr ⟨cue, hcue, mem_pair.mpr (.inr rfl)⟩

theorem cue_of_mem_ofCues {trigger : Trigger} {first : Nat} {cues : List Cue}
    (hmem : trigger ∈ ofCues first cues) :
    first ≤ trigger.cue ∧ trigger.cue < first + cues.length := by
  obtain ⟨index, cue, hcue, hpair⟩ := mem_ofCues.mp hmem
  have hlength := (List.getElem?_eq_some_iff.mp hcue).1
  rw [cue_of_mem_pair hpair]
  omega

theorem ofCues_append (first : Nat) (cues others : List Cue) :
    ofCues first (cues ++ others) = ofCues first cues ++ ofCues (first + cues.length) others := by
  induction cues generalizing first with
  | nil => rfl
  | cons cue rest ih =>
      rw [List.cons_append, ofCues, ofCues, ih, List.append_assoc, List.length_cons,
        show first + 1 + rest.length = first + (rest.length + 1) by omega]

/-- The triggers of numbered cues stand in the order of arming. -/
theorem pairwise_rank_ofCues (first : Nat) (cues : List Cue) :
    (ofCues first cues).Pairwise fun a b => a.rank < b.rank := by
  induction cues generalizing first with
  | nil => exact .nil
  | cons cue rest ih =>
      refine List.pairwise_append.mpr ⟨?_, ih (first + 1), ?_⟩
      · refine List.pairwise_pair.mpr ?_
        exact Nat.lt_succ_self _
      · intro a ha b hb
        have hcue := cue_of_mem_pair ha
        have hfirst := (cue_of_mem_ofCues hb).1
        have hranka := rank_eq a
        have hrankb := rank_eq b
        omega

/-- Of two triggers of a cue the first has the lower rank unless it is the hide and the
second is the show. -/
theorem rank_lt_of_mem_ofCues {a b : Trigger} {cues : List Cue} (ha : a ∈ ofCues 0 cues)
    (hb : b ∈ ofCues 0 cues) (hsame : a.cue = b.cue) (hne : a ≠ b)
    (hturn : ∀ (id : Nat) (cue : Cue), cues[id]? = some cue → a = cue.hideTrigger id →
      b ≠ cue.showTrigger id) : a.rank < b.rank := by
  obtain ⟨cue, hcue, hpair⟩ := mem_ofCues_zero.mp ha
  obtain ⟨other, hother, hpair'⟩ := mem_ofCues_zero.mp hb
  rw [← hsame, hcue] at hother
  cases hother
  rw [← hsame] at hpair'
  rcases mem_pair.mp hpair with hshow | hhide
  · rcases mem_pair.mp hpair' with hshow' | hhide'
    · exact absurd (hshow.trans hshow'.symm) hne
    · rw [hshow, hhide', Cue.rank_showTrigger, Cue.rank_hideTrigger]
      exact Nat.lt_succ_self _
  · rcases mem_pair.mp hpair' with hshow' | hhide'
    · exact absurd hshow' (hturn a.cue cue hcue hhide)
    · exact absurd (hhide.trans hhide'.symm) hne

end Trigger

end Captions
