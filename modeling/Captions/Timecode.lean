
/-! # Time codes

A time code is two digits of minutes, a colon and two digits of seconds. The
seconds may go up to 99, so several codes can stand for one offset; `ofOffset?`
chooses the one in which the seconds stay below 60 as long as the minutes fit.
-/

namespace Captions

/-- Minutes and seconds, each written with two digits. -/
structure Timecode where
  minutes : Fin 100
  seconds : Fin 100
deriving DecidableEq, Repr

namespace Timecode

/-- The value of an ASCII digit. -/
def digit? (c : Char) : Option (Fin 10) :=
  if h : 48 ≤ c.toNat ∧ c.toNat ≤ 57 then some ⟨c.toNat - 48, by omega⟩ else none

/-- The number written with a tens digit and a units digit. -/
def ofDigits (tens units : Fin 10) : Fin 100 :=
  ⟨10 * tens + units, by omega⟩

/-- Reads one code from exactly five characters. -/
def ofFive? (a b colon c d : Char) : Option Timecode :=
  match digit? a, digit? b, digit? c, digit? d with
  | some a, some b, some c, some d =>
    if colon = ':' then some ⟨ofDigits a b, ofDigits c d⟩ else none
  | _, _, _, _ => none

/-- Reads a text that is one code and nothing else. -/
def parse? (token : String) : Option Timecode :=
  match token.toList with
  | [a, b, colon, c, d] => ofFive? a b colon c d
  | _ => none

/-- The codes in a line from left to right, no two of them overlapping. A code
is taken as soon as one starts, so `00:01:02` holds only `00:01`. -/
def scan : List Char → List Timecode
  | a :: b :: colon :: c :: d :: rest =>
    match ofFive? a b colon c d with
    | some code => code :: scan rest
    | none => scan (b :: colon :: c :: d :: rest)
  | _ => []

/-- The offset that a code stands for, in milliseconds. -/
def offset (code : Timecode) : Nat :=
  (60 * code.minutes + code.seconds) * 1000

/-- The code with the largest offset. -/
def last : Timecode :=
  ⟨99, 99⟩

/-- The code for an offset, any fraction of a second dropped. Minutes that do not
fit are carried over to the seconds; past 99:99 there is no code. -/
def ofOffset? (time : Nat) : Option Timecode :=
  let total := time / 1000
  let minutes := min (total / 60) 99
  let seconds := total - 60 * minutes
  if h : seconds < 100 then some ⟨⟨minutes, by omega⟩, ⟨seconds, h⟩⟩ else none

/-- The two digits of a number. -/
def twoDigits (n : Fin 100) : List Char :=
  [Nat.digitChar (n / 10), Nat.digitChar (n % 10)]

/-- The five characters of a code. -/
def toChars (code : Timecode) : List Char :=
  twoDigits code.minutes ++ ':' :: twoDigits code.seconds

/-- A code as text. -/
def render (code : Timecode) : String :=
  String.ofList code.toChars

theorem digit?_digitChar (n : Fin 10) : digit? (Nat.digitChar n) = some n := by
  revert n
  decide

theorem ofDigits_div_mod (n : Fin 100) :
    ofDigits ⟨n / 10, by omega⟩ ⟨n % 10, by omega⟩ = n := by
  apply Fin.ext
  simp [ofDigits]
  omega

/-- The five characters of a code are read as the code. -/
theorem exists_toChars_eq (code : Timecode) :
    ∃ a b c d, code.toChars = [a, b, ':', c, d] ∧ ofFive? a b ':' c d = some code := by
  obtain ⟨minutes, seconds⟩ := code
  have tens (n : Fin 100) := digit?_digitChar ⟨n / 10, by omega⟩
  have units (n : Fin 100) := digit?_digitChar ⟨n % 10, by omega⟩
  simp only at tens units
  refine ⟨_, _, _, _, rfl, ?_⟩
  simp [ofFive?, tens, units, ofDigits_div_mod]

/-- A written code is read back unchanged. -/
theorem parse?_render (code : Timecode) : parse? code.render = some code := by
  obtain ⟨a, b, c, d, hchars, hread⟩ := exists_toChars_eq code
  rw [parse?, render, String.toList_ofList, hchars]
  exact hread

theorem offset_le (code : Timecode) : code.offset ≤ 6039000 := by
  unfold offset
  omega

theorem ofOffset?_eq_none_iff (time : Nat) : ofOffset? time = none ↔ 6039 < time / 1000 := by
  simp only [ofOffset?]
  split <;> simp <;> omega

/-- The code for an offset stands for the whole seconds of it. -/
theorem offset_of_ofOffset? {time : Nat} {code : Timecode} (h : ofOffset? time = some code) :
    code.offset = time / 1000 * 1000 := by
  simp only [ofOffset?] at h
  split at h
  next =>
    cases h
    simp only [offset]
    omega
  next => simp at h

end Timecode

end Captions
