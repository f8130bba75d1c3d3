import Captions.Proofs.Text.Matches
import Captions.Timecode

/-! # Scanning for time codes

Where a written code stands in a line it is found, and a character that is not a
digit never starts a code. The codes of a line are the matches of the pattern of two
digits, a colon and two digits.
-/

namespace Captions.Timecode

theorem digit?_eq_none_iff {c : Char} : digit? c = none ↔ ¬ c.isDigit := by
  simp only [digit?, dite_eq_right_iff, reduceCtorEq, imp_false, Char.isDigit, Bool.and_eq_true,
    decide_eq_true_eq, UInt32.le_iff_toNat_le]
  exact Iff.rfl

/-- A character that is not a digit starts no code. -/
theorem scan_cons_of_not_isDigit {c : Char} (hc : ¬ c.isDigit) (rest : List Char) :
    scan (c :: rest) = scan rest := by
  have hnone : digit? c = none := digit?_eq_none_iff.mpr hc
  match rest with
  | [] | [_] | [_, _] | [_, _, _] => simp [scan]
  | _ :: _ :: _ :: _ :: _ =>
      rw [scan]
      simp [ofFive?, hnone]

/-- A scan passes over what holds no digits. -/
theorem scan_append_of_no_digits {first : List Char} (hfirst : ∀ c ∈ first, ¬ c.isDigit)
    (second : List Char) : scan (first ++ second) = scan second := by
  induction first with
  | nil => rfl
  | cons c rest ih =>
      obtain ⟨hc, hrest⟩ := List.forall_mem_cons.mp hfirst
      rw [List.cons_append, scan_cons_of_not_isDigit hc, ih hrest]

theorem scan_of_no_digits {line : List Char} (hline : ∀ c ∈ line, ¬ c.isDigit) : scan line = [] := by
  have hscan := scan_append_of_no_digits hline []
  rw [List.append_nil] at hscan
  exact hscan

/-- A written code is found, and the scan goes on behind it. -/
theorem scan_toChars_append (code : Timecode) (rest : List Char) :
    scan (code.toChars ++ rest) = code :: scan rest := by
  obtain ⟨a, b, c, d, hchars, hread⟩ := exists_toChars_eq code
  rw [hchars]
  simp only [List.cons_append, List.nil_append, scan, hread]

theorem isDigit_digitChar (n : Fin 10) : (Nat.digitChar n).isDigit := by
  revert n
  decide

theorem offset_mod_thousand (code : Timecode) : code.offset % 1000 = 0 := by
  simp [offset]

/-- Whole seconds up to 99:99 have a code, which stands for exactly them. -/
theorem exists_ofOffset? {time : Nat} (hle : time ≤ 6039000) (hwhole : time % 1000 = 0) :
    ∃ code, ofOffset? time = some code ∧ code.offset = time := by
  cases hcode : ofOffset? time with
  | none =>
      rw [ofOffset?_eq_none_iff] at hcode
      omega
  | some code =>
      refine ⟨code, rfl, ?_⟩
      rw [offset_of_ofOffset? hcode]
      omega

/-- Two ASCII digits, a colon and two ASCII digits. -/
def IsToken (token : List Char) : Prop :=
  ∃ a b c d : Char, token = [a, b, ':', c, d] ∧ a.isDigit ∧ b.isDigit ∧ c.isDigit ∧ d.isDigit

/-- The milliseconds for which a token stands, its minutes and seconds read in base ten. -/
def tokenOffset (token : List Char) : Nat :=
  (Nat.ofDigitChars 10 (token.take 2) 0 * 60 + Nat.ofDigitChars 10 (token.drop 3) 0) * 1000

theorem digitChar_of_digit? {c : Char} {n : Fin 10} (h : digit? c = some n) :
    Nat.digitChar n = c := by
  have hchar (m : Fin 10) : Nat.digitChar m = Char.ofNat (m + 48) := by
    revert m
    decide
  simp only [digit?, Option.dite_none_right_eq_some, Option.some.injEq] at h
  obtain ⟨hrange, rfl⟩ := h
  rw [hchar, Nat.sub_add_cancel hrange.1, Char.ofNat_toNat]

theorem twoDigits_ofDigits (tens units : Fin 10) :
    twoDigits (ofDigits tens units) = [Nat.digitChar tens, Nat.digitChar units] := by
  have htens : (10 * (tens : Nat) + units) / 10 = tens := by omega
  have hunits : (10 * (tens : Nat) + units) % 10 = units := by omega
  simp only [twoDigits, ofDigits, htens, hunits]

theorem ofDigitChars_twoDigits (n : Fin 100) : Nat.ofDigitChars 10 (twoDigits n) 0 = n := by
  revert n
  decide

/-- A code that is read from five characters is written with them. -/
theorem toChars_of_ofFive? {a b colon c d : Char} {code : Timecode}
    (h : ofFive? a b colon c d = some code) : code.toChars = [a, b, colon, c, d] := by
  unfold ofFive? at h
  split at h
  next ha hb hc hd =>
    split at h
    next hcolon =>
      cases h
      rw [toChars, twoDigits_ofDigits, twoDigits_ofDigits, digitChar_of_digit? ha,
        digitChar_of_digit? hb, digitChar_of_digit? hc, digitChar_of_digit? hd, hcolon]
      rfl
    next => cases h
  next => cases h

theorem exists_ofFive? {a b c d : Char} (ha : a.isDigit) (hb : b.isDigit) (hc : c.isDigit)
    (hd : d.isDigit) : ∃ code, ofFive? a b ':' c d = some code := by
  have hdigit {e : Char} (he : e.isDigit) : ∃ n, digit? e = some n := by
    rw [← Option.ne_none_iff_exists', Ne, digit?_eq_none_iff, Classical.not_not]
    exact he
  obtain ⟨_, ha⟩ := hdigit ha
  obtain ⟨_, hb⟩ := hdigit hb
  obtain ⟨_, hc⟩ := hdigit hc
  obtain ⟨_, hd⟩ := hdigit hd
  simp [ofFive?, ha, hb, hc, hd]

theorem eq_render_iff {token : String} {code : Timecode} :
    token = code.render ↔ token.toList = code.toChars := by
  rw [← String.toList_inj, render, String.toList_ofList]

/-- A code is read from the characters with which it is written and from no others. -/
theorem parse?_eq_some_iff {token : String} {code : Timecode} :
    parse? token = some code ↔ token.toList = code.toChars := by
  constructor
  · intro h
    unfold parse? at h
    split at h
    next a b colon c d hchars => exact hchars.trans (toChars_of_ofFive? h).symm
    next => cases h
  · intro h
    rw [eq_render_iff.mpr h]
    exact parse?_render code

theorem isToken_toChars (code : Timecode) : IsToken code.toChars := by
  have htens (n : Fin 100) := isDigit_digitChar ⟨n / 10, by omega⟩
  have hunits (n : Fin 100) := isDigit_digitChar ⟨n % 10, by omega⟩
  exact ⟨_, _, _, _, rfl, htens _, hunits _, htens _, hunits _⟩

/-- A code is written with digits and a colon. -/
theorem isDigit_or_eq_colon_of_mem_toChars {code : Timecode} {c : Char}
    (hmem : c ∈ code.toChars) : c.isDigit ∨ c = ':' := by
  obtain ⟨a, b, d, e, hchars, ha, hb, hd, he⟩ := isToken_toChars code
  simp only [hchars, List.mem_cons, List.not_mem_nil, or_false] at hmem
  rcases hmem with rfl | rfl | rfl | rfl | rfl
  · exact .inl ha
  · exact .inl hb
  · exact .inr rfl
  · exact .inl hd
  · exact .inl he

/-- What matches the pattern is a written code. -/
theorem IsToken.exists_toChars {token : List Char} (htoken : IsToken token) :
    ∃ code : Timecode, token = code.toChars := by
  obtain ⟨a, b, c, d, rfl, ha, hb, hc, hd⟩ := htoken
  obtain ⟨code, hcode⟩ := exists_ofFive? ha hb hc hd
  exact ⟨code, (toChars_of_ofFive? hcode).symm⟩

theorem isSome_parse?_iff {token : String} :
    (parse? token).isSome ↔ IsToken token.toList := by
  rw [Option.isSome_iff_exists]
  constructor
  · rintro ⟨code, hcode⟩
    rw [parse?_eq_some_iff.mp hcode]
    exact isToken_toChars code
  · intro htoken
    obtain ⟨code, hcode⟩ := htoken.exists_toChars
    exact ⟨code, parse?_eq_some_iff.mpr hcode⟩

theorem IsToken.length_eq {token : List Char} (htoken : IsToken token) : token.length = 5 := by
  obtain ⟨_, _, _, _, rfl, _⟩ := htoken
  rfl

/-- The minutes of a code are read from its first two digits. -/
theorem ofDigitChars_take_toChars (code : Timecode) :
    Nat.ofDigitChars 10 (code.toChars.take 2) 0 = code.minutes :=
  ofDigitChars_twoDigits code.minutes

/-- The seconds of a code are read from its last two digits. -/
theorem ofDigitChars_drop_toChars (code : Timecode) :
    Nat.ofDigitChars 10 (code.toChars.drop 3) 0 = code.seconds :=
  ofDigitChars_twoDigits code.seconds

theorem tokenOffset_toChars (code : Timecode) : tokenOffset code.toChars = code.offset := by
  rw [tokenOffset, ofDigitChars_take_toChars, ofDigitChars_drop_toChars, offset, Nat.mul_comm 60]

theorem not_startsWith_of_ofFive? {a b colon c d : Char} {rest : List Char}
    (h : ofFive? a b colon c d = none) :
    ¬ Text.StartsWith IsToken (a :: b :: colon :: c :: d :: rest) := by
  rintro ⟨_, after, heq, _, _, _, _, rfl, ha, hb, hc, hd⟩
  cases heq
  obtain ⟨code, hcode⟩ := exists_ofFive? ha hb hc hd
  rw [hcode] at h
  cases h

/-- The codes of a line are the matches of their pattern. -/
theorem matches_scan (line : List Char) :
    Text.Matches IsToken line ((scan line).map toChars) := by
  fun_induction scan line with
  | case1 a b colon c d rest code hcode ih =>
      rw [show a :: b :: colon :: c :: d :: rest = code.toChars ++ rest by
        rw [toChars_of_ofFive? hcode]; rfl]
      refine .next (.head (isToken_toChars code) ?_) ih
      intro other _ _ hother
      exact Nat.le_of_eq (hother.length_eq.trans (isToken_toChars code).length_eq.symm)
  | case2 a b colon c d rest hcode ih => exact ih.cons (not_startsWith_of_ofFive? hcode)
  | case3 line hshort =>
      refine .none ?_
      rintro ⟨before, token, after, heq, htoken⟩
      have hlength : 5 ≤ line.length := by
        rw [heq, List.length_append, List.length_append, htoken.length_eq]
        omega
      match line, hshort, hlength with
      | a :: b :: colon :: c :: d :: rest, hshort, _ => exact hshort a b colon c d rest rfl

end Captions.Timecode
