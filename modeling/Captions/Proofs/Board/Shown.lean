import Captions.Board.Shown

/-! # The texts of a record

The texts of a record are those that stand somewhere. A record that starts out empty lists
them in order, each of them once.
-/

namespace Captions.Shown

theorem mem_texts {text : String} {shown : Shown} :
    text ∈ shown.texts ↔ shown.find? text ≠ none := by
  have hnone : shown.find? text = none ↔ text ∉ shown.texts := by
    simp only [find?, Option.map_eq_none_iff, List.find?_eq_none, decide_eq_true_eq, texts,
      List.mem_map, not_exists, not_and]
  rw [Ne, hnone, Classical.not_not]

/-- A record without texts is empty. -/
theorem eq_empty {shown : Shown} (htexts : ∀ text, text ∉ shown.texts) : shown = {} := by
  obtain ⟨entries⟩ := shown
  cases entries with
  | nil => rfl
  | cons entry rest => exact absurd List.mem_cons_self (htexts entry.1)

/-- Removing a text that is not there changes nothing. -/
theorem erase_of_find?_eq_none {text : String} {shown : Shown} (hnone : shown.find? text = none) :
    shown.erase text = shown := by
  have hentries : shown.entries.filter (fun entry => entry.1 ≠ text) = shown.entries := by
    rw [List.filter_eq_self]
    intro entry hmem
    have hne : text ∉ shown.texts := fun htext => mem_texts.mp htext hnone
    exact decide_eq_true fun heq => hne (List.mem_map.mpr ⟨entry, hmem, heq⟩)
  rw [erase, hentries]

/-- The texts stand in order, each of them once. -/
def IsSorted (shown : Shown) : Prop :=
  shown.texts.Pairwise (· < ·)

theorem isSorted_empty : IsSorted {} :=
  .nil

theorem mem_insertEntry {text : String} {placement : Placement} {entry : String × Placement}
    {entries : List (String × Placement)} (hmem : entry ∈ insertEntry text placement entries) :
    entry = (text, placement) ∨ entry ∈ entries := by
  induction entries with
  | nil => exact .inl (List.mem_singleton.mp hmem)
  | cons head rest ih =>
      rw [insertEntry] at hmem
      split at hmem
      next => exact List.mem_cons.mp hmem
      next =>
        split at hmem
        next => exact (List.mem_cons.mp hmem).imp_right (List.mem_cons_of_mem _)
        next =>
          rcases List.mem_cons.mp hmem with rfl | hrest
          · exact .inr List.mem_cons_self
          · exact (ih hrest).imp_right (List.mem_cons_of_mem _)

theorem IsSorted.insert {shown : Shown} (hsorted : shown.IsSorted) (text : String)
    (placement : Placement) : (shown.insert text placement).IsSorted := by
  obtain ⟨entries⟩ := shown
  rw [IsSorted, texts, List.pairwise_map] at hsorted ⊢
  unfold Shown.insert
  induction entries with
  | nil => exact List.pairwise_singleton _ _
  | cons head rest ih =>
      obtain ⟨other, place⟩ := head
      obtain ⟨hhead, hrest⟩ := List.pairwise_cons.mp hsorted
      dsimp only [insertEntry]
      split
      next hlt =>
        refine List.pairwise_cons.mpr ⟨?_, hsorted⟩
        refine List.forall_mem_cons.mpr ⟨hlt, ?_⟩
        intro entry hentry
        exact String.lt_trans hlt (hhead entry hentry)
      next hle =>
        split
        next heq =>
          subst heq
          exact List.pairwise_cons.mpr ⟨hhead, hrest⟩
        next hne =>
          refine List.pairwise_cons.mpr ⟨?_, ih hrest⟩
          intro entry hentry
          rcases mem_insertEntry hentry with rfl | hentry
          · exact Std.lt_of_le_of_ne (String.not_lt.mp hle) (Ne.symm hne)
          · exact hhead entry hentry

theorem IsSorted.erase {shown : Shown} (hsorted : shown.IsSorted) (text : String) :
    (shown.erase text).IsSorted := by
  rw [IsSorted, texts, List.pairwise_map] at hsorted ⊢
  exact hsorted.filter _

end Captions.Shown
