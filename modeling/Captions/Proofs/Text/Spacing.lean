import Captions.Proofs.Text.Words
import Mathlib.Data.List.Chain

/-! # Letters and single spaces

A text is made of words with one space between neighbours exactly if it holds nothing but letters
and spaces, starts and ends with a letter, and has no two spaces side by side. The letters of such a
text are those of its words, one word after the other.
-/

namespace Captions.Text

/-- Letters and single spaces, with a letter at either end. -/
structure IsSpaced (text : List Char) : Prop where
  ne_nil : text ≠ []
  letters : ∀ c ∈ text, c.isAlpha ∨ c = ' '
  head : text.head? ≠ some ' '
  last : text.getLast? ≠ some ' '
  single : text.IsChain fun c d => ¬ (c = ' ' ∧ d = ' ')

namespace IsSpaced

variable {c d : Char} {rest : List Char}

theorem isAlpha_head (hspaced : IsSpaced (c :: rest)) : c.isAlpha := by
  refine (hspaced.letters c List.mem_cons_self).resolve_right ?_
  rintro rfl
  exact hspaced.head rfl

theorem of_cons (hspaced : IsSpaced (c :: d :: rest)) (hd : d ≠ ' ') : IsSpaced (d :: rest) where
  ne_nil := List.cons_ne_nil d rest
  letters := fun e he => hspaced.letters e (List.mem_cons_of_mem _ he)
  head := fun heq => hd (Option.some.inj heq)
  last := by
    have hlast := hspaced.last
    rwa [List.getLast?_cons_cons] at hlast
  single := hspaced.single.of_cons

theorem of_cons_space (hspaced : IsSpaced (c :: ' ' :: rest)) : IsSpaced rest := by
  cases rest with
  | nil => exact absurd rfl hspaced.last
  | cons d rest =>
      have hd : d ≠ ' ' := by
        rintro rfl
        exact (List.isChain_cons_cons.mp hspaced.single.of_cons).1 ⟨rfl, rfl⟩
      refine ⟨List.cons_ne_nil d rest, ?_, fun heq => hd (Option.some.inj heq), ?_,
        hspaced.single.of_cons.of_cons⟩
      · exact fun e he => hspaced.letters e (List.mem_cons_of_mem _ (List.mem_cons_of_mem _ he))
      · have hlast := hspaced.last
        rwa [List.getLast?_cons_cons, List.getLast?_cons_cons] at hlast

/-- Two such texts can be put side by side with a space between them. -/
theorem append {first second : List Char} (hfirst : IsSpaced first) (hsecond : IsSpaced second) :
    IsSpaced (first ++ ' ' :: second) where
  ne_nil := by simp
  letters := by
    intro c hc
    rcases List.mem_append.mp hc with hc | hc
    · exact hfirst.letters c hc
    · rcases List.mem_cons.mp hc with rfl | hc
      · exact .inr rfl
      · exact hsecond.letters c hc
  head := by
    rw [List.head?_append_of_ne_nil _ hfirst.ne_nil]
    exact hfirst.head
  last := by
    obtain ⟨c, rest, rfl⟩ := List.exists_cons_of_ne_nil hsecond.ne_nil
    rw [List.getLast?_append_cons, List.getLast?_cons_cons]
    exact hsecond.last
  single := by
    refine List.isChain_append.mpr ⟨hfirst.single, List.isChain_cons.mpr ⟨?_, hsecond.single⟩, ?_⟩
    · rintro d hd ⟨_, rfl⟩
      exact hsecond.head hd
    · rintro c hc _ _ ⟨rfl, _⟩
      exact hfirst.last hc

end IsSpaced

theorem IsWord.isSpaced {word : List Char} (hword : IsWord word) : IsSpaced word where
  ne_nil := hword.1
  letters := fun c hc => .inl (hword.2 c hc)
  head := fun hhead => isAlpha_space (hword.2 _ (List.mem_of_head? hhead))
  last := fun hlast => isAlpha_space (hword.2 _ (List.mem_of_getLast? hlast))
  single := by
    refine List.Pairwise.isChain (List.pairwise_of_forall_mem_list ?_)
    rintro _ hc _ _ ⟨rfl, _⟩
    exact isAlpha_space (hword.2 _ hc)

theorem unwords_singleton (word : List Char) : unwords [word] = word := by
  simp [unwords]

/-- Words that are joined by spaces make such a text. -/
theorem isSpaced_unwords {ws : List (List Char)} (hne : ws ≠ []) (hws : ∀ word ∈ ws, IsWord word) :
    IsSpaced (unwords ws) := by
  induction ws with
  | nil => exact absurd rfl hne
  | cons word others ih =>
      obtain ⟨hword, hothers⟩ := List.forall_mem_cons.mp hws
      cases others with
      | nil =>
          rw [unwords_singleton]
          exact hword.isSpaced
      | cons next rest =>
          rw [unwords_cons_of_ne_nil word (List.cons_ne_nil next rest)]
          exact hword.isSpaced.append (ih (List.cons_ne_nil next rest) hothers)

theorem unwords_modifyHead_cons (c : Char) {ws : List (List Char)} (hne : ws ≠ []) :
    unwords (ws.modifyHead (c :: ·)) = c :: unwords ws := by
  obtain ⟨word, others, rfl⟩ := List.exists_cons_of_ne_nil hne
  cases others with
  | nil => rw [List.modifyHead_cons, unwords_singleton, unwords_singleton]
  | cons next rest =>
      rw [List.modifyHead_cons, unwords_cons_of_ne_nil _ (List.cons_ne_nil next rest),
        unwords_cons_of_ne_nil _ (List.cons_ne_nil next rest)]
      rfl

theorem words_ne_nil {c : Char} (hc : c.isAlpha) (rest : List Char) : words (c :: rest) ≠ [] := by
  rw [Ne, words_eq_nil_iff]
  exact fun hnone => hnone c List.mem_cons_self hc

/-- Such a text is made of its words. -/
theorem IsSpaced.unwords_words : ∀ {text : List Char}, IsSpaced text → unwords (words text) = text
  | [], hspaced => absurd rfl hspaced.ne_nil
  | [c], hspaced => by
    rw [words_cons_of_stop hspaced.isAlpha_head (by simp)]
    rfl
  | c :: d :: rest, hspaced => by
    have hc := hspaced.isAlpha_head
    -- The word goes on, or it is followed by a space and the next word.
    rcases hspaced.letters d (by simp) with hd | rfl
    · have hne : d ≠ ' ' := by
        rintro rfl
        exact isAlpha_space hd
      rw [words_cons_cons_of_isAlpha hc hd, unwords_modifyHead_cons c (words_ne_nil hd rest),
        (hspaced.of_cons hne).unwords_words]
    · have hrest := hspaced.of_cons_space.unwords_words
      have hwords : words rest ≠ [] := by
        intro hnone
        rw [hnone] at hrest
        exact hspaced.of_cons_space.ne_nil hrest.symm
      rw [words_cons_of_stop hc (by simp [isAlpha_space]), words_cons_of_not_isAlpha isAlpha_space,
        unwords_cons_of_ne_nil _ hwords, hrest]
      rfl

/-- A text is spaced like this exactly if it is made of words that are joined by spaces. -/
theorem isSpaced_iff {text : List Char} :
    IsSpaced text ↔ ∃ ws, ws ≠ [] ∧ (∀ word ∈ ws, IsWord word) ∧ text = unwords ws := by
  constructor
  · intro hspaced
    refine ⟨words text, ?_, fun word hword => isWord_of_mem_words hword,
      hspaced.unwords_words.symm⟩
    obtain ⟨c, rest, rfl⟩ := List.exists_cons_of_ne_nil hspaced.ne_nil
    exact words_ne_nil hspaced.isAlpha_head rest
  · rintro ⟨ws, hne, hws, rfl⟩
    exact isSpaced_unwords hne hws

/-- The words of a text hold its letters in order. -/
theorem flatten_words (text : List Char) : (words text).flatten = text.filter Char.isAlpha := by
  induction text with
  | nil => rfl
  | cons c rest ih =>
      by_cases hc : c.isAlpha
      · rw [List.filter_cons_of_pos hc, ← ih]
        cases rest with
        | nil =>
            rw [words_cons_of_stop hc (by simp)]
            rfl
        | cons d rest =>
            by_cases hd : d.isAlpha
            · obtain ⟨word, others, hwords⟩ := List.exists_cons_of_ne_nil (words_ne_nil hd rest)
              rw [words_cons_cons_of_isAlpha hc hd, hwords]
              rfl
            · rw [words_cons_of_stop hc (by simpa using hd)]
              rfl
      · rw [words_cons_of_not_isAlpha hc, List.filter_cons_of_neg hc, ih]

/-- Without its spaces, a text made of words is its words one after the other. -/
theorem filter_unwords {ws : List (List Char)} (hws : ∀ word ∈ ws, IsWord word) :
    (unwords ws).filter (· ≠ ' ') = ws.flatten := by
  have hall : ∀ word, IsWord word → word.filter (· ≠ ' ') = word := by
    intro word hword
    refine List.filter_eq_self.mpr fun c hc => decide_eq_true ?_
    rintro rfl
    exact isAlpha_space (hword.2 _ hc)
  induction ws with
  | nil => rfl
  | cons word others ih =>
      obtain ⟨hword, hothers⟩ := List.forall_mem_cons.mp hws
      cases others with
      | nil => rw [unwords_singleton, hall word hword, List.flatten_singleton]
      | cons next rest =>
          rw [unwords_cons_of_ne_nil word (List.cons_ne_nil next rest), List.filter_append,
            hall word hword, List.filter_cons_of_neg (by simp), ih hothers]
          rfl

end Captions.Text
