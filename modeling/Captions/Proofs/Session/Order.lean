import Captions.Proofs.Session.Visibility

/-! # The order of scheduling

Cues with the same text erase each other. If such cues are never on at the same time, the
order in which all cues are scheduled at the start matters only where one of them ends as
another one begins: the one that ends has to be scheduled first.
-/

namespace Captions

namespace Cue

/-- The cues are not on at the same time if they have the same text. -/
def Apart (first second : Cue) : Prop :=
  first.text = second.text → first.hideAt ≤ second.showAt ∨ second.hideAt ≤ first.showAt

/-- The first cue ends just as the second one begins with the same text. -/
def HandsOver (first second : Cue) : Prop :=
  first.text = second.text ∧ first.hideAt = second.showAt

instance (first second : Cue) : Decidable (first.Apart second) :=
  inferInstanceAs (Decidable (_ → _))

instance (first second : Cue) : Decidable (first.HandsOver second) :=
  inferInstanceAs (Decidable (_ ∧ _))

theorem Apart.symm {first second : Cue} (hapart : first.Apart second) : second.Apart first := by
  intro htext
  exact (hapart htext.symm).symm

theorem rel_of_getElem? {R : Cue → Cue → Prop} {cues : List Cue} (hcues : cues.Pairwise R)
    {i j : Nat} (hlt : i < j) {first second : Cue} (hfirst : cues[i]? = some first)
    (hsecond : cues[j]? = some second) : R first second := by
  obtain ⟨hi, rfl⟩ := List.getElem?_eq_some_iff.mp hfirst
  obtain ⟨hj, rfl⟩ := List.getElem?_eq_some_iff.mp hsecond
  exact List.pairwise_iff_getElem.mp hcues i j hi hj hlt

theorem apart_of_getElem? {cues : List Cue} (hapart : cues.Pairwise Apart) {i j : Nat}
    (hne : i ≠ j) {first second : Cue} (hfirst : cues[i]? = some first)
    (hsecond : cues[j]? = some second) : first.Apart second := by
  rcases Nat.lt_or_gt_of_ne hne with hlt | hgt
  · exact rel_of_getElem? hapart hlt hfirst hsecond
  · exact (rel_of_getElem? hapart hgt hsecond hfirst).symm

end Cue

namespace Trigger

variable {triggers : List Trigger} {text : String} {placement : Placement}

/-- Among sorted triggers a text stands where one puts it that precedes no other one that
is about the text. -/
theorem find?_replay_of_pairwise (hsorted : triggers.Pairwise Precedes) :
    (replay {} triggers).find? text = some placement ↔
      ∃ trigger ∈ triggers, trigger.mark = .drawn text placement ∧
        ∀ other ∈ triggers, trigger.Precedes other → ¬ other.mark.Concerns text := by
  rw [find?_replay_eq_some_iff]
  constructor
  · rintro ⟨before, trigger, after, rfl, hmark, hafter⟩
    refine ⟨trigger, by simp, hmark, ?_⟩
    intro other hother hprecedes
    obtain ⟨_, _, hbefore⟩ := List.pairwise_append.mp hsorted
    rcases List.mem_append.mp hother with hmem | hmem
    · exact absurd hprecedes (hbefore other hmem trigger List.mem_cons_self).asymm
    · rcases List.mem_cons.mp hmem with rfl | hmem
      · exact absurd hprecedes hprecedes.asymm
      · exact hafter other hmem
  · rintro ⟨trigger, hmem, hmark, hothers⟩
    obtain ⟨before, after, rfl⟩ := List.append_of_mem hmem
    refine ⟨before, trigger, after, rfl, hmark, ?_⟩
    intro other hother
    obtain ⟨_, hafter, _⟩ := List.pairwise_append.mp hsorted
    exact hothers other (by simp [hother]) (List.rel_of_pairwise_cons hafter hother)

variable {cues : List Cue} {time : Nat}

/-- A text stands for the cue that is on, unless a cue that was scheduled later hands over
to it. -/
theorem find?_replay_of_apart (hsorted : triggers.Pairwise Precedes)
    (hfired : ∀ trigger, trigger ∈ triggers ↔ trigger ∈ ofCues 0 cues ∧ trigger.due ≤ time)
    (hcues : ∀ cue ∈ cues, cue.IsDrawable ∧ cue.showAt < cue.hideAt)
    (hapart : cues.Pairwise Cue.Apart) :
    (replay {} triggers).find? text = some placement ↔
      ∃ (id : Nat) (cue : Cue), cues[id]? = some cue ∧ cue.IsOn time ∧ cue.text = text ∧
        cue.placement.getD .centered = placement ∧
        ∀ (ending : Nat) (other : Cue), cues[ending]? = some other → other.HandsOver cue →
          ending < id := by
  rw [find?_replay_of_pairwise hsorted]
  constructor
  · rintro ⟨trigger, hmem, hmark, hothers⟩
    obtain ⟨cue, hcue, hshow, hdrawable, htext, hplacement⟩ :=
      (mark_eq_drawn_iff ((hfired trigger).mp hmem).1).mp hmark
    generalize trigger.cue = id at hcue hshow
    subst hshow
    have hlt : cue.showAt < cue.hideAt := (hcues cue (List.mem_of_getElem? hcue)).2
    have hdue : cue.showAt ≤ time := ((hfired _).mp hmem).2
    refine ⟨id, cue, hcue, ⟨hdue, ?_⟩, htext, hplacement, ?_⟩
    · by_contra hover
      have hhide : cue.hideTrigger id ∈ triggers :=
        (hfired _).mpr ⟨hideTrigger_mem_ofCues hcue, Nat.not_lt.mp hover⟩
      exact hothers _ hhide (.inl hlt) htext
    · rintro ending other hother ⟨hsame, hend⟩
      by_contra hlater
      have hhide : other.hideTrigger ending ∈ triggers :=
        (hfired _).mpr ⟨hideTrigger_mem_ofCues hother, hend.trans_le hdue⟩
      refine hothers _ hhide (.inr ⟨hend.symm, ?_⟩) (hsame.trans htext)
      rw [Cue.rank_showTrigger, Cue.rank_hideTrigger]
      omega
  · rintro ⟨id, cue, hcue, ⟨hshow, hhide⟩, rfl, rfl, hlater⟩
    obtain ⟨hdrawable, hlt⟩ := hcues cue (List.mem_of_getElem? hcue)
    refine ⟨cue.showTrigger id, (hfired _).mpr ⟨showTrigger_mem_ofCues hcue, hshow⟩,
      if_pos hdrawable, ?_⟩
    intro trigger hmem hprecedes hconcerns
    obtain ⟨harmed, hdue⟩ := (hfired trigger).mp hmem
    obtain ⟨other, hother, hpair, htext⟩ := exists_cue_of_concerns harmed hconcerns
    generalize trigger.cue = number at hother hpair
    by_cases hid : id = number
    · subst hid
      rw [hcue] at hother
      cases hother
      rcases mem_pair.mp hpair with rfl | rfl
      · exact hprecedes.asymm hprecedes
      · exact Nat.not_le.mpr hhide hdue
    have hotherlt : other.showAt < other.hideAt := (hcues other (List.mem_of_getElem? hother)).2
    rcases Cue.apart_of_getElem? hapart hid hcue hother htext.symm with hafter | hbefore
    -- The other cue comes later, and neither of its triggers is due.
    · rcases mem_pair.mp hpair with rfl | rfl
      · exact Nat.not_le.mpr (Nat.lt_of_lt_of_le hhide hafter) hdue
      · exact Nat.not_le.mpr (Nat.lt_of_lt_of_le hhide (hafter.trans hotherlt.le)) hdue
    -- The other cue comes first, and only its hide can fall together with the show.
    · rcases mem_pair.mp hpair with rfl | rfl
      · have horder : cue.showAt < other.showAt ∨
            cue.showAt = other.showAt ∧ 2 * id < 2 * number := hprecedes
        omega
      · have horder : cue.showAt < other.hideAt ∨
            cue.showAt = other.hideAt ∧ 2 * id < 2 * number + 1 := hprecedes
        have hend : other.hideAt = cue.showAt := by omega
        have hearlier := hlater number other hother ⟨htext, hend⟩
        omega

end Trigger

namespace Session

variable {δ : Type}

/-- Schedules cues one after the other. -/
def scheduleAll (session : Session δ) : List Cue → Session δ
  | [] => session
  | cue :: rest => (session.schedule cue).2.session.scheduleAll rest

theorem scheduleAll_eq (session : Session δ) (cues : List Cue) :
    session.scheduleAll cues = { session with agenda := session.agenda.armAll cues } := by
  induction cues generalizing session with
  | nil => rfl
  | cons cue rest ih => exact ih (session.schedule cue).2.session

theorem visible_of_keeps {P : δ → Prop} {session : Session δ} (hkeeps : session.Keeps P) :
    session.visible = session.board.shown.texts :=
  if_pos hkeeps.alive

theorem keeps_scheduleAll {P : δ → Prop} {board : Board δ} (hdisplay : P board.display)
    (cues : List Cue) : ((start board).scheduleAll cues).Keeps P := by
  rw [scheduleAll_eq]
  exact ⟨rfl, hdisplay⟩

variable [Display δ]

/-- What is scheduled at the start fires when it is due, in order. -/
theorem fired_scheduleAll (board : Board δ) {cues : List Cue}
    (hcues : ∀ cue ∈ cues, cue.showAt ≤ cue.hideAt) (time : Nat) :
    (((start board).scheduleAll cues).advance time).fired.Pairwise Trigger.Precedes ∧
      ∀ trigger, trigger ∈ (((start board).scheduleAll cues).advance time).fired ↔
        trigger ∈ Trigger.ofCues 0 cues ∧ trigger.due ≤ time := by
  have hledger : (({} : Agenda).armAll cues).Ledger [] cues [] 0 :=
    (Agenda.ledger_empty 0).armAll hcues
  have hfired : (((start board).scheduleAll cues).advance time).fired =
      ((({} : Agenda).armAll cues).fire 0 time).1 := by
    rw [scheduleAll_eq]
    exact (advance_session _ (Nat.zero_max time)).1
  rw [hfired]
  refine ⟨hledger.pairwise_fire_zero time, ?_⟩
  intro trigger
  rw [hledger.mem_fire (Nat.zero_le time), Agenda.cancelled_armAll]
  simp

/-- Where the texts stand after the cues were scheduled at the start on an empty board. -/
theorem find?_shown_scheduleAll {board : Board δ} (hdisplay : Display.IsReliable board.display)
    (hempty : board.shown = {}) {cues : List Cue}
    (hcues : ∀ cue ∈ cues, cue.IsDrawable ∧ cue.showAt < cue.hideAt)
    (hapart : cues.Pairwise Cue.Apart) (time : Nat) {text : String} {placement : Placement} :
    (((start board).scheduleAll cues).advance time).session.board.shown.find? text =
        some placement ↔
      ∃ (id : Nat) (cue : Cue), cues[id]? = some cue ∧ cue.IsOn time ∧ cue.text = text ∧
        cue.placement.getD .centered = placement ∧
        ∀ (ending : Nat) (other : Cue), cues[ending]? = some other → other.HandsOver cue →
          ending < id := by
  obtain ⟨hsorted, hfired⟩ := fired_scheduleAll board (fun cue hmem => (hcues cue hmem).2.le) time
  have hboard : ((start board).scheduleAll cues).board.shown = {} := by
    rw [scheduleAll_eq]
    exact hempty
  rw [shown_advance_of_keeps (keeps_scheduleAll hdisplay cues), hboard]
  exact Trigger.find?_replay_of_apart hsorted hfired hcues hapart

/-- What is visible when cues with the same text are never on at the same time: the cues
that are on, without those to which one hands over that is scheduled later. If every cue
that hands over is scheduled before the other, the order does not matter any more. -/
theorem visible_of_apart {board : Board δ} (hdisplay : Display.IsReliable board.display)
    (hempty : board.shown = {}) {cues order : List Cue} (horder : order.Perm cues)
    (hcues : ∀ cue ∈ cues, cue.IsDrawable ∧ cue.showAt < cue.hideAt)
    (hapart : cues.Pairwise Cue.Apart) (time : Nat) :
    (∀ text, text ∈ (((start board).scheduleAll order).advance time).session.visible ↔
      ∃ (id : Nat) (cue : Cue), order[id]? = some cue ∧ cue.text = text ∧ cue.IsOn time ∧
        ∀ (ending : Nat) (other : Cue), order[ending]? = some other → other.HandsOver cue →
          ending < id) ∧
      (order.Pairwise (fun first second => ¬ second.HandsOver first) →
        ∀ text, text ∈ (((start board).scheduleAll order).advance time).session.visible ↔
          ∃ cue ∈ cues, cue.text = text ∧ cue.IsOn time) := by
  have hordered : ∀ cue ∈ order, cue.IsDrawable ∧ cue.showAt < cue.hideAt := by
    intro cue hmem
    exact hcues cue (horder.mem_iff.mp hmem)
  have hdistinct : order.Pairwise Cue.Apart :=
    (horder.pairwise_iff Cue.Apart.symm).mpr hapart
  have hkeeps := (keeps_scheduleAll hdisplay order).advance Display.guards_isReliable time
  have hvisible : ∀ text,
      text ∈ (((start board).scheduleAll order).advance time).session.visible ↔
        ∃ (id : Nat) (cue : Cue), order[id]? = some cue ∧ cue.text = text ∧ cue.IsOn time ∧
          ∀ (ending : Nat) (other : Cue), order[ending]? = some other → other.HandsOver cue →
            ending < id := by
    intro text
    rw [visible_of_keeps hkeeps, Shown.mem_texts, Option.ne_none_iff_exists']
    simp only [find?_shown_scheduleAll hdisplay hempty hordered hdistinct time]
    constructor
    · rintro ⟨_, id, cue, hcue, hon, htext, _, hearlier⟩
      exact ⟨id, cue, hcue, htext, hon, hearlier⟩
    · rintro ⟨id, cue, hcue, htext, hon, hearlier⟩
      exact ⟨_, id, cue, hcue, hon, htext, rfl, hearlier⟩
  refine ⟨hvisible, ?_⟩
  intro hhands text
  rw [hvisible]
  constructor
  · rintro ⟨id, cue, hcue, htext, hon, _⟩
    exact ⟨cue, horder.mem_iff.mp (List.mem_of_getElem? hcue), htext, hon⟩
  · rintro ⟨cue, hmem, htext, hon⟩
    obtain ⟨id, hcue⟩ := List.getElem?_of_mem (horder.mem_iff.mpr hmem)
    refine ⟨id, cue, hcue, htext, hon, ?_⟩
    intro ending other hother hover
    rcases Nat.lt_trichotomy ending id with hlt | rfl | hgt
    · exact hlt
    -- No cue hands over to itself.
    · rw [hcue] at hother
      cases hother
      exact absurd hover.2 (hcues cue hmem).2.ne'
    · exact absurd hover (Cue.rel_of_getElem? hhands hgt hcue hother)

theorem visible_of_apart_in_order :
    "Again" ∈ (((opening ⟨⟨80, 24⟩, 20, 6, 59, 17⟩).scheduleAll
      [⟨0, 5000, "Again", none, none⟩, ⟨5000, 10000, "Again", none, none⟩]).advance
        5000).session.visible := by
  have hdisplay : Display.IsReliable ({} : Recorder) := Recorder.IsWorking.isReliable rfl
  have horder : [(⟨0, 5000, "Again", none, none⟩ : Cue), ⟨5000, 10000, "Again", none, none⟩].Perm
      [⟨5000, 10000, "Again", none, none⟩, ⟨0, 5000, "Again", none, none⟩] := .swap ..
  refine ((visible_of_apart hdisplay rfl horder (by decide) (by decide) 5000).2
    (by decide) "Again").mpr ?_
  decide

/-- The order does matter where a cue hands over to one that was scheduled before it: the
hide of the one comes after the show of the other. -/
theorem not_visible_of_reversed_handover :
    ¬ ∀ (cues order : List Cue) (time : Nat), order.Perm cues →
      (∀ cue ∈ cues, cue.IsDrawable ∧ cue.showAt < cue.hideAt) → cues.Pairwise Cue.Apart →
      ∀ text, text ∈ (((opening ⟨⟨80, 24⟩, 20, 6, 59, 17⟩).scheduleAll order).advance
          time).session.visible ↔
        ∃ cue ∈ cues, cue.text = text ∧ cue.IsOn time := by
  intro hall
  have hon := hall [⟨0, 5000, "Again", none, none⟩, ⟨5000, 10000, "Again", none, none⟩]
    [⟨5000, 10000, "Again", none, none⟩, ⟨0, 5000, "Again", none, none⟩] 5000 (.swap ..)
    (by decide) (by decide) "Again"
  have hvisible := hon.mpr (by decide)
  revert hvisible
  decide

end Session

end Captions
