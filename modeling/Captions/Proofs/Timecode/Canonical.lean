import Captions.Cue.Printer
import Captions.Proofs.Timecode

/-! # Canonical codes

Several codes can stand for one time, because minutes may be counted among the seconds. One of them
is canonical, and a time is written with it: what is read back is the time up to its last whole
second. Writing what was read from a token makes the token canonical and leaves a canonical one as
it is.
-/

namespace Captions

namespace Timecode

/-- The time for which a text stands, if it is one code and nothing else. -/
def read? (token : String) : Option Nat :=
  (parse? token).map offset

/-- The number in front of the colon of a token. -/
def minutesField (token : String) : Nat :=
  Nat.ofDigitChars 10 (token.toList.take 2) 0

/-- The number behind the colon of a token. -/
def secondsField (token : String) : Nat :=
  Nat.ofDigitChars 10 (token.toList.drop 3) 0

/-- The token of a time that counts no minute among the seconds unless the minutes are full. -/
structure IsCanonical (time : Nat) (token : String) : Prop where
  read : read? token = some time
  carried : secondsField token < 60 ∨ minutesField token = 99

/-- As many minutes of a code are written as minutes as there is room for. -/
def IsCarried (code : Timecode) : Prop :=
  code.seconds.val < 60 ∨ code.minutes.val = 99

theorem isCarried_of_ofOffset? {time : Nat} {code : Timecode} (h : ofOffset? time = some code) :
    code.IsCarried := by
  simp only [ofOffset?] at h
  split at h
  next =>
    cases h
    simp only [IsCarried]
    omega
  next => cases h

/-- A code whose minutes are not full stands for less than 99 minutes, any other for at least that
time. In both cases the minutes follow from the time, and the seconds are what remains of it. -/
theorem IsCarried.eq_of_offset_eq {first second : Timecode} (hfirst : first.IsCarried)
    (hsecond : second.IsCarried) (h : first.offset = second.offset) : first = second := by
  obtain ⟨minutes, seconds⟩ := first
  obtain ⟨minutes', seconds'⟩ := second
  simp only [IsCarried] at hfirst hsecond
  simp only [offset] at h
  have hminutes : minutes = minutes' := by omega
  have hseconds : seconds = seconds' := by omega
  rw [hminutes, hseconds]

theorem IsCarried.ofOffset?_offset {code : Timecode} (hcode : code.IsCarried) :
    ofOffset? code.offset = some code := by
  obtain ⟨other, hother, hoffset⟩ := exists_ofOffset? code.offset_le code.offset_mod_thousand
  rw [hother, (isCarried_of_ofOffset? hother).eq_of_offset_eq hcode hoffset]

/-- A fraction of a second is dropped. -/
theorem ofOffset?_wholeSeconds (time : Nat) : ofOffset? (time / 1000 * 1000) = ofOffset? time := by
  simp only [ofOffset?, Nat.mul_div_cancel _ (by decide : 0 < 1000)]

theorem ofOffset?_eq_some_iff {time : Nat} {code : Timecode} :
    ofOffset? time = some code ↔ code.IsCarried ∧ code.offset = time / 1000 * 1000 := by
  constructor
  · intro h
    exact ⟨isCarried_of_ofOffset? h, offset_of_ofOffset? h⟩
  · rintro ⟨hcode, hoffset⟩
    rw [← ofOffset?_wholeSeconds, ← hoffset]
    exact hcode.ofOffset?_offset

theorem minutesField_render (code : Timecode) : minutesField code.render = code.minutes := by
  rw [minutesField, render, String.toList_ofList, ofDigitChars_take_toChars]

theorem secondsField_render (code : Timecode) : secondsField code.render = code.seconds := by
  rw [secondsField, render, String.toList_ofList, ofDigitChars_drop_toChars]

theorem length_render (code : Timecode) : code.render.length = 5 :=
  String.length_ofList

theorem read?_eq_some_iff {token : String} {time : Nat} :
    read? token = some time ↔ ∃ code : Timecode, token = code.render ∧ code.offset = time := by
  simp only [read?, Option.map_eq_some_iff, parse?_eq_some_iff, eq_render_iff]

/-- A token is canonical exactly if the code with which it is written is carried. -/
theorem isCanonical_iff {time : Nat} {token : String} :
    IsCanonical time token ↔
      ∃ code : Timecode, token = code.render ∧ code.IsCarried ∧ code.offset = time := by
  constructor
  · rintro ⟨hread, hcarried⟩
    obtain ⟨code, rfl, hoffset⟩ := read?_eq_some_iff.mp hread
    rw [secondsField_render, minutesField_render] at hcarried
    exact ⟨code, rfl, hcarried, hoffset⟩
  · rintro ⟨code, rfl, hcarried, hoffset⟩
    refine ⟨read?_eq_some_iff.mpr ⟨code, rfl, hoffset⟩, ?_⟩
    rwa [secondsField_render, minutesField_render]

end Timecode

namespace Cue

open Timecode

/-- A time is written with the canonical token of its whole seconds. -/
theorem printTime_eq_ok_iff {time : Nat} {token : String} :
    printTime time = .ok token ↔ IsCanonical (time / 1000 * 1000) token := by
  rw [isCanonical_iff]
  constructor
  · intro h
    cases hcode : ofOffset? time with
    | none =>
        simp only [printTime, hcode, reduceCtorEq] at h
    | some code =>
        rw [printTime_eq_ok hcode] at h
        exact ⟨code, (Except.ok.inj h).symm, ofOffset?_eq_some_iff.mp hcode⟩
  · rintro ⟨code, rfl, hcode⟩
    exact printTime_eq_ok (ofOffset?_eq_some_iff.mpr hcode)

theorem printTime_eq_error_iff {time : Nat} :
    printTime time = .error (.offsetTooLarge time) ↔ 6039 < time / 1000 := by
  rw [← ofOffset?_eq_none_iff]
  cases hcode : ofOffset? time with
  | none => simp only [printTime, hcode]
  | some code => simp only [printTime, hcode, reduceCtorEq]

theorem exists_printTime_iff {time : Nat} :
    (∃ token, printTime time = .ok token) ↔ time / 1000 ≤ 6039 := by
  rw [← Nat.not_lt, ← ofOffset?_eq_none_iff, ← ne_eq, Option.ne_none_iff_exists']
  constructor
  · rintro ⟨token, htoken⟩
    obtain ⟨code, _, hcode⟩ := isCanonical_iff.mp (printTime_eq_ok_iff.mp htoken)
    exact ⟨code, ofOffset?_eq_some_iff.mpr hcode⟩
  · rintro ⟨code, hcode⟩
    exact ⟨code.render, printTime_eq_ok hcode⟩

theorem length_of_printTime {time : Nat} {token : String} (h : printTime time = .ok token) :
    token.length = 5 := by
  obtain ⟨code, rfl, _⟩ := isCanonical_iff.mp (printTime_eq_ok_iff.mp h)
  exact length_render code

/-- A token stands for whole seconds, so nothing of its time is dropped when that is written. -/
theorem printTime_of_isCanonical {time : Nat} {token : String} (h : IsCanonical time token) :
    printTime time = .ok token := by
  obtain ⟨code, _, _, rfl⟩ := isCanonical_iff.mp h
  have hwhole : code.offset / 1000 * 1000 = code.offset :=
    Nat.div_mul_cancel (Nat.dvd_of_mod_eq_zero code.offset_mod_thousand)
  rwa [printTime_eq_ok_iff, hwhole]

theorem exists_isCanonical {token : String} {time : Nat} (h : read? token = some time) :
    ∃ canonical, IsCanonical time canonical := by
  obtain ⟨code, _, rfl⟩ := read?_eq_some_iff.mp h
  obtain ⟨other, hother, hoffset⟩ := exists_ofOffset? code.offset_le code.offset_mod_thousand
  exact ⟨other.render, isCanonical_iff.mpr ⟨other, rfl, isCarried_of_ofOffset? hother, hoffset⟩⟩

/-- A time is written exactly if it is less than a second past 99:99, with five characters from which
its whole seconds are read back. Whatever token a time is read from, it is written with the only
canonical one, and writing what is read from that gives the same token again. -/
theorem written_times_are_canonical :
    (∀ time : Nat,
      ((∃ token, printTime time = .ok token) ↔ time / 1000 ≤ 6039) ∧
        (printTime time = .error (.offsetTooLarge time) ↔ 6039 < time / 1000) ∧
        ∀ token : String, printTime time = .ok token →
          token.length = 5 ∧ read? token = some (time / 1000 * 1000)) ∧
      ∀ (token : String) (time : Nat), read? token = some time →
        ∃ canonical : String, printTime time = .ok canonical ∧ IsCanonical time canonical ∧
          (∀ other : String, IsCanonical time other → other = canonical) ∧
          (read? canonical).map printTime = some (.ok canonical) := by
  constructor
  · intro time
    refine ⟨exists_printTime_iff, printTime_eq_error_iff, ?_⟩
    intro token htoken
    exact ⟨length_of_printTime htoken, (printTime_eq_ok_iff.mp htoken).read⟩
  · intro token time hread
    obtain ⟨canonical, hcanonical⟩ := exists_isCanonical hread
    have hprint := printTime_of_isCanonical hcanonical
    refine ⟨canonical, hprint, hcanonical, ?_, ?_⟩
    · intro other hother
      exact Except.ok.inj ((printTime_of_isCanonical hother).symm.trans hprint)
    · rw [hcanonical.read, Option.map_some, hprint]

/-- The seconds of 98:60 make up a minute. Those of 99:99 cannot be carried, and past them no time is
written. -/
theorem written_times_are_canonical_around_last_minute :
    (read? "98:60" = some 5940000 ∧ printTime 5940000 = .ok "99:00" ∧
      (∀ other : String, IsCanonical 5940000 other → other = "99:00") ∧
      (read? "99:00").map printTime = some (.ok "99:00")) ∧
      (printTime 6039999 = .ok "99:99" ∧ "99:99".length = 5 ∧ read? "99:99" = some 6039000) ∧
      ¬ ∃ token, printTime 6040000 = .ok token := by
  have hread : read? "98:60" = some 5940000 := rfl
  have hcarried : printTime 5940000 = .ok "99:00" := rfl
  have hlast : printTime 6039999 = .ok "99:99" := rfl
  obtain ⟨canonical, hprint, _, hunique, hagain⟩ := written_times_are_canonical.2 _ _ hread
  obtain rfl : canonical = "99:00" := Except.ok.inj (hprint.symm.trans hcarried)
  refine ⟨⟨hread, hprint, hunique, hagain⟩, ⟨hlast, ?_⟩, ?_⟩
  · exact (written_times_are_canonical.1 6039999).2.2 "99:99" hlast
  · rw [(written_times_are_canonical.1 6040000).1]
    decide

end Cue

end Captions
