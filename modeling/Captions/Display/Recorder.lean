import Captions.Display.Basic

/-! # The recorder

A display that writes down the calls it carried out. It refuses calls, or breaks,
when it is told to, so that failures can be rehearsed.
-/

namespace Captions

/-- What a recorder does with the next calls. -/
inductive Health where
  /-- It carries out every call. -/
  | working
  /-- It carries out this many calls and refuses all after them. -/
  | failingAfter (calls : Nat)
  /-- It breaks at the next call. -/
  | breaking
deriving DecidableEq, Repr

/-- The calls carried out so far, and what happens to the next ones. -/
structure Recorder where
  calls : Array Call := #[]
  health : Health := .working
deriving DecidableEq, Repr

namespace Recorder

/-- Carries out or refuses a call. A refused call leaves no trace. -/
def perform (call : Call) (recorder : Recorder) : Status × Recorder :=
  match recorder.health with
  | .working => (.done, { recorder with calls := recorder.calls.push call })
  | .failingAfter 0 => (.refused .unplugged, recorder)
  | .failingAfter (left + 1) => (.done, ⟨recorder.calls.push call, .failingAfter left⟩)
  | .breaking => (.broken, recorder)

/-- Sets how many calls succeed before all are refused. Also takes back an
announced break. -/
def failAfter (limit : Option Nat) (recorder : Recorder) : Recorder :=
  { recorder with health := limit.elim .working .failingAfter }

/-- Lets the next call break the display. -/
def crash (recorder : Recorder) : Recorder :=
  { recorder with health := .breaking }

/-- Forgets the calls written down so far. -/
def rewind (recorder : Recorder) : Recorder :=
  { recorder with calls := #[] }

end Recorder

instance : Rehearsal Recorder where
  perform := Recorder.perform
  failAfter := Recorder.failAfter

/-- A working recorder writes down every call. -/
theorem Recorder.carryOut_working (calls : List Call) (written : Array Call) :
    carryOut calls (⟨written, .working⟩ : Recorder) = (.done, ⟨written ++ calls, .working⟩) := by
  induction calls generalizing written with
  | nil => simp
  | cons call rest ih =>
      have h : Display.perform call (⟨written, .working⟩ : Recorder) =
          (.done, ⟨written.push call, .working⟩) := rfl
      rw [carryOut_cons_of_done h, ih]
      simp

end Captions
