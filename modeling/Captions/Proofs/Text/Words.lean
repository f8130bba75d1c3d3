import Captions.Proofs.Text.Matches
import Captions.Text.Words

/-! # Words of joined texts

The words of two texts side by side are the words of the one followed by those of
the other, unless a word goes on across the seam. Hence words that are joined by
spaces can be found again. The words of a text are the matches of the pattern of one
letter or more, so none of them could be longer.
-/

namespace Captions.Text

/-- At least one ASCII letter and nothing else. -/
def IsWord (word : List Char) : Prop :=
  word ≠ [] ∧ ∀ c ∈ word, c.isAlpha

instance (word : List Char) : Decidable (IsWord word) :=
  inferInstanceAs (Decidable (_ ∧ _))

theorem isAlpha_space : ¬ (' ').isAlpha := by decide

theorem not_isDigit_of_isAlpha {c : Char} (hc : c.isAlpha) : ¬ c.isDigit := by
  intro hdigit
  have hrange : 48 ≤ c.toNat ∧ c.toNat ≤ 57 := by
    obtain ⟨hlow, hhigh⟩ := (Bool.and_eq_true _ _).mp hdigit
    exact ⟨of_decide_eq_true hlow, of_decide_eq_true hhigh⟩
  rcases (Bool.or_eq_true _ _).mp hc with hupper | hlower
  · have hle : 65 ≤ c.toNat := (of_decide_eq_true hupper).1
    omega
  · obtain ⟨hlow, _⟩ := (Bool.and_eq_true _ _).mp hlower
    have hle : 97 ≤ c.toNat := of_decide_eq_true hlow
    omega

theorem words_cons_of_not_isAlpha {c : Char} (hc : ¬ c.isAlpha) (rest : List Char) :
    words (c :: rest) = words rest := by
  simp [words, hc]

theorem words_cons_cons_of_isAlpha {c d : Char} (hc : c.isAlpha) (hd : d.isAlpha)
    (rest : List Char) : words (c :: d :: rest) = (words (d :: rest)).modifyHead (c :: ·) := by
  simp [words, hc, hd]

theorem words_cons_of_stop {c : Char} {rest : List Char} (hc : c.isAlpha)
    (hrest : ∀ d ∈ rest.head?, ¬ d.isAlpha) : words (c :: rest) = [c] :: words rest := by
  cases rest with
  | nil => simp [words, hc]
  | cons d rest =>
      have hd := hrest d rfl
      simp [words, hc, hd]

theorem words_eq_nil {text : List Char} (h : ∀ c ∈ text, ¬ c.isAlpha) : words text = [] :=
  (words_eq_nil_iff text).mpr h

/-- Every word found is a word. -/
theorem isWord_of_mem_words {text word : List Char} (hmem : word ∈ words text) :
    IsWord word := by
  induction text generalizing word with
  | nil => simp [words] at hmem
  | cons c rest ih =>
      by_cases hc : c.isAlpha
      · by_cases hrest : ∀ d ∈ rest.head?, ¬ d.isAlpha
        · rw [words_cons_of_stop hc hrest] at hmem
          rcases List.mem_cons.mp hmem with rfl | hmem
          · exact ⟨by simp, by simp [hc]⟩
          · exact ih hmem
        · cases rest with
          | nil => simp at hrest
          | cons d rest =>
              have hd : d.isAlpha := by simpa using hrest
              rw [words_cons_cons_of_isAlpha hc hd] at hmem
              cases hwords : words (d :: rest) with
              | nil => simp [hwords] at hmem
              | cons first others =>
                  rw [hwords] at hmem ih
                  rcases List.mem_cons.mp hmem with rfl | hmem
                  · obtain ⟨_, hletters⟩ := ih List.mem_cons_self
                    refine ⟨by simp, ?_⟩
                    simpa [hc] using hletters
                  · exact ih (List.mem_cons_of_mem _ hmem)
      · rw [words_cons_of_not_isAlpha hc] at hmem
        exact ih hmem

/-- Texts can be searched for words one after the other if no word goes on from
the first to the second. -/
theorem words_append {first second : List Char}
    (hseam : (∀ c ∈ first.getLast?, ¬ c.isAlpha) ∨ ∀ c ∈ second.head?, ¬ c.isAlpha) :
    words (first ++ second) = words first ++ words second := by
  induction first with
  | nil => simp [words]
  | cons c rest ih =>
      cases rest with
      | nil =>
          by_cases hc : c.isAlpha
          · have hsecond : ∀ d ∈ second.head?, ¬ d.isAlpha :=
              hseam.resolve_left fun hlast => hlast c rfl hc
            rw [List.singleton_append, words_cons_of_stop hc hsecond,
              words_cons_of_stop hc (by simp)]
            rfl
          · rw [List.singleton_append, words_cons_of_not_isAlpha hc, words_cons_of_not_isAlpha hc]
            rfl
      | cons d rest =>
          have hrest : words (d :: rest ++ second) = words (d :: rest) ++ words second :=
            ih (by simpa [List.getLast?_cons_cons] using hseam)
          rw [List.cons_append] at hrest
          rw [List.cons_append, List.cons_append]
          by_cases hc : c.isAlpha
          · by_cases hd : d.isAlpha
            -- The first word only gets one letter longer, on both sides.
            · have hne : words (d :: rest) ≠ [] := by
                rw [Ne, words_eq_nil_iff]
                exact fun hnone => hnone d List.mem_cons_self hd
              obtain ⟨word, others, hwords⟩ := List.exists_cons_of_ne_nil hne
              rw [words_cons_cons_of_isAlpha hc hd, hrest, words_cons_cons_of_isAlpha hc hd, hwords]
              rfl
            · have hstop : ∀ (tail : List Char), ∀ e ∈ (d :: tail).head?, ¬ e.isAlpha := by
                simpa using hd
              rw [words_cons_of_stop hc (hstop _), hrest, words_cons_of_stop hc (hstop _)]
              rfl
          · rw [words_cons_of_not_isAlpha hc, hrest, words_cons_of_not_isAlpha hc]

/-- What holds no letters adds no words. -/
theorem words_append_of_no_letters {first : List Char} (h : ∀ c ∈ first, ¬ c.isAlpha)
    (second : List Char) : words (first ++ second) = words second := by
  rw [words_append (.inl fun c hc => h c (List.mem_of_getLast? hc)), words_eq_nil h]
  rfl

/-- A word on its own is the only word there. -/
theorem words_of_isWord {word : List Char} (hword : IsWord word) : words word = [word] := by
  obtain ⟨hne, hletters⟩ := hword
  induction word with
  | nil => exact absurd rfl hne
  | cons c rest ih =>
      have hc : c.isAlpha := hletters c List.mem_cons_self
      cases rest with
      | nil => exact words_cons_of_stop hc (by simp)
      | cons d rest =>
          have hrest := ih (by simp) fun e he => hletters e (List.mem_cons_of_mem _ he)
          rw [words_cons_cons_of_isAlpha hc (hletters d (by simp)), hrest]
          rfl

theorem words_append_of_isWord {word rest : List Char} (hword : IsWord word)
    (hrest : ∀ c ∈ rest.head?, ¬ c.isAlpha) : words (word ++ rest) = word :: words rest := by
  rw [words_append (.inr hrest), words_of_isWord hword]
  rfl

theorem unwords_cons_of_ne_nil (word : List Char) {others : List (List Char)}
    (h : others ≠ []) : unwords (word :: others) = word ++ ' ' :: unwords others := by
  simp [unwords, List.intercalate_cons_of_ne_nil h]

/-- Words joined by spaces are found again. -/
theorem words_unwords {ws : List (List Char)} (h : ∀ word ∈ ws, IsWord word) :
    words (unwords ws) = ws := by
  induction ws with
  | nil => rfl
  | cons word others ih =>
      have hword : IsWord word := h word List.mem_cons_self
      have hothers := ih fun other hmem => h other (List.mem_cons_of_mem _ hmem)
      cases others with
      | nil => simpa [unwords] using words_of_isWord hword
      | cons next rest =>
          rw [unwords_cons_of_ne_nil word (by simp),
            words_append_of_isWord hword (by simp [isAlpha_space]),
            words_cons_of_not_isAlpha isAlpha_space, hothers]

/-- Words joined by spaces hold nothing but letters and spaces. -/
theorem isAlpha_or_eq_space_of_mem_unwords {ws : List (List Char)}
    (h : ∀ word ∈ ws, IsWord word) {c : Char} (hmem : c ∈ unwords ws) :
    c.isAlpha ∨ c = ' ' := by
  induction ws with
  | nil => simp at hmem
  | cons word others ih =>
      have hword : IsWord word := h word List.mem_cons_self
      cases others with
      | nil => exact .inl (hword.2 c (by simpa [unwords] using hmem))
      | cons next rest =>
          rw [unwords_cons_of_ne_nil word (by simp), List.mem_append, List.mem_cons] at hmem
          rcases hmem with hmem | rfl | hmem
          · exact .inl (hword.2 c hmem)
          · exact .inr rfl
          · exact ih (fun other hother => h other (List.mem_cons_of_mem _ hother)) hmem

/-- A word at the front of a text is its first match unless a letter follows. -/
theorem firstMatch_of_isWord {word rest : List Char} (hword : IsWord word)
    (hrest : ∀ c ∈ rest.head?, ¬ c.isAlpha) : FirstMatch IsWord (word ++ rest) [] word rest := by
  refine .head hword ?_
  intro other tail heq hother
  rcases List.append_eq_append_iff.mp heq with ⟨more, rfl, hmore⟩ | ⟨more, rfl, _⟩
  · cases more with
    | nil => simp
    | cons c more =>
        rw [hmore] at hrest
        exact absurd (hother.2 c (by simp)) (hrest c rfl)
  · simp

theorem not_startsWith_of_not_isAlpha {c : Char} (hc : ¬ c.isAlpha) (rest : List Char) :
    ¬ StartsWith IsWord (c :: rest) := by
  rintro ⟨token, after, heq, hne, hletters⟩
  cases token with
  | nil => exact hne rfl
  | cons d token =>
      rw [List.cons_append] at heq
      rw [(List.cons.inj heq).1] at hc
      exact hc (hletters d List.mem_cons_self)

/-- A text that starts with a letter starts with a word behind which no letter stands. -/
theorem exists_isWord_append {c : Char} (hc : c.isAlpha) (rest : List Char) :
    ∃ word tail, c :: rest = word ++ tail ∧ IsWord word ∧ ∀ d ∈ tail.head?, ¬ d.isAlpha := by
  refine ⟨(c :: rest).takeWhile Char.isAlpha, (c :: rest).dropWhile Char.isAlpha,
    List.takeWhile_append_dropWhile.symm, ⟨?_, ?_⟩, ?_⟩
  · simp [hc]
  · intro d hd
    exact List.all_eq_true.mp List.all_takeWhile d hd
  · intro d hd
    have hstop := List.head?_dropWhile_not Char.isAlpha (c :: rest)
    rw [Option.mem_def.mp hd] at hstop
    simpa using hstop

/-- The words of a text are the matches of their pattern. -/
theorem matches_words (text : List Char) : Matches IsWord text (words text) := by
  induction hlength : text.length using Nat.strongRecOn generalizing text with
  | ind length ih =>
      cases text with
      | nil =>
          refine .none ?_
          rintro ⟨before, token, after, heq, hne, _⟩
          rw [eq_comm, List.append_eq_nil_iff, List.append_eq_nil_iff] at heq
          exact hne heq.1.2
      | cons c rest =>
          rw [List.length_cons] at hlength
          by_cases hc : c.isAlpha
          · obtain ⟨word, tail, heq, hword, htail⟩ := exists_isWord_append hc rest
            have hshorter : tail.length < length := by
              have hlengths := congrArg List.length heq
              have hpos := List.length_pos_iff.mpr hword.1
              rw [List.length_cons, List.length_append] at hlengths
              omega
            rw [heq, words_append_of_isWord hword htail]
            exact .next (firstMatch_of_isWord hword htail) (ih _ hshorter tail rfl)
          · rw [words_cons_of_not_isAlpha hc]
            exact (ih _ (by omega) rest rfl).cons (not_startsWith_of_not_isAlpha hc rest)

end Captions.Text
