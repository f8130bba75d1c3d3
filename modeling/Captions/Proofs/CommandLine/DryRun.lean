import Captions.CommandLine.Program
import Captions.Proofs.Cue.RoundTrip
import Captions.Proofs.Reading

/-! # Checking an input

A check tells apart three kinds of input: those with a line that is not text, those with lines
that are not cues, and those that are in order. What it prints for the last two is an input in
order, and a check of that prints it again.
-/

namespace Captions

namespace Text

/-- A line of some bytes can only fail to be text. -/
theorem eq_notUtf8_of_mem_readLines {bytes : List UInt8} {fault : ReadFault}
    (hmem : .error fault ∈ readLines bytes) : fault = .notUtf8 := by
  obtain ⟨line, _, hline⟩ := List.mem_map.mp hmem
  rw [decodeLine] at hline
  split at hline
  next => cases hline
  next => exact (Except.error.inj hline).symm

end Text

namespace Reading

theorem wellFormed_of_mem_cuesOn {texts : List String} {cue : Cue} (hmem : cue ∈ cuesOn texts) :
    cue.WellFormed := by
  obtain ⟨line, _, hparse⟩ := exists_line_of_mem_cuesOn hmem
  exact Cue.wellFormed_of_parse hparse

theorem malformedAmong_eq_nil_iff {texts : List String} :
    malformedAmong texts = [] ↔ ∀ line ∈ Text.written texts, (Cue.parse line).isOk := by
  simp [malformedAmong]

/-- Lines that are all cues give these cues, and none of them is malformed. -/
theorem cuesOn_of_map_parse {texts : List String} {cues : List Cue}
    (hparse : texts.map Cue.parse = cues.map .ok) :
    cuesOn texts = cues ∧ malformedAmong texts = [] := by
  refine ⟨?_, ?_⟩
  · have hcues : (texts.map Cue.parse).filterMap Except.toOption = cues := by
      rw [hparse, List.filterMap_map]
      exact List.filterMap_some
    rw [← filterMap_parse, ← hcues, List.filterMap_map]
    rfl
  · rw [malformedAmong, List.filter_eq_nil_iff]
    intro line hline
    have hmem : Cue.parse line ∈ texts.map Cue.parse :=
      List.mem_map_of_mem (List.mem_filter.mp hline).1
    rw [hparse] at hmem
    obtain ⟨cue, _, hcue⟩ := List.mem_map.mp hmem
    rw [← hcue]
    simp [Except.isOk, Except.toBool]

end Reading

namespace CommandLine

/-- The command line asks for a check of an input that can be opened and has these lines. -/
structure AsksToCheck (tree : FileTree) (stdin : List UInt8) (arguments : List String)
    (options : Options) (lines : List Text.LineRead) : Prop where
  request : Request.parse? arguments = some (.run options)
  dryRun : options.dryRun
  opened : openFiles options stdin tree = .ok lines

/-- What a check of lines of an input with a name may leave behind. -/
inductive Verdict (name : String) (lines : List Text.LineRead) : Outcome → Prop
  /-- There is a line that is not text. It is reported by its number, and nothing is printed. -/
  | unreadable {texts : List String} (hlines : Text.BreaksOff lines texts (some .notUtf8)) :
      Verdict name lines
        ⟨1, "", errorReport ["Failed to read cue line " ++ toString (texts.length + 1),
          "stream did not contain valid UTF-8"]⟩
  /-- Every line that is not blank is a cue. -/
  | inOrder {texts : List String} {listing : String}
      (hlines : Text.BreaksOff lines texts none)
      (hlisting : Cue.listing (Reading.cuesOn texts) = .ok listing)
      (hcues : ∀ line ∈ Text.written texts, (Cue.parse line).isOk) :
      Verdict name lines ⟨0, listing, ""⟩
  /-- Some lines are neither blank nor cues. They are counted, and the others are printed. -/
  | malformed {texts : List String} {listing : String} {count : Nat}
      (hlines : Text.BreaksOff lines texts none)
      (hlisting : Cue.listing (Reading.cuesOn texts) = .ok listing)
      (hcount : (Reading.malformedAmong texts).length = count)
      (hsome : 0 < count) :
      Verdict name lines
        ⟨1, listing, errorReport [toString count ++ " malformed cue line(s) in '" ++ name ++ "'"]⟩

variable {tree : FileTree} {stdin : List UInt8} {arguments : List String} {options : Options}
  {lines : List Text.LineRead}

theorem AsksToCheck.run_eq (hasks : AsksToCheck tree stdin arguments options lines) :
    run tree stdin arguments = CommandLine.dryRun options.inputName (Reading.ofLines lines) := by
  obtain ⟨later, hrun⟩ := run_of_openFiles hasks.request hasks.opened
  rw [hrun, Host.process, if_pos hasks.dryRun]
  rfl

/-- A check of an input that breaks off prints nothing. -/
theorem dryRun_of_fault {texts : List String} {fault : Text.ReadFault}
    (hlines : Text.BreaksOff lines texts (some fault)) (name : String) :
    dryRun name (Reading.ofLines lines) =
      ⟨1, "", errorReport ["Failed to read cue line " ++ toString (texts.length + 1),
        fault.message]⟩ := by
  have haccounts := Reading.accountsFor_of_breaksOff hlines
  rw [dryRun, haccounts.report]
  rfl

/-- A check of an input without an unreadable line prints its cues. -/
theorem dryRun_of_never {texts : List String} {listing : String}
    (hlisting : Cue.listing (Reading.cuesOn texts) = .ok listing) (name : String) :
    dryRun name (Reading.ofLines (texts.map .ok)) =
      if (Reading.malformedAmong texts).length = 0 then ⟨0, listing, ""⟩
      else ⟨1, listing, errorReport [toString (Reading.malformedAmong texts).length ++
        " malformed cue line(s) in '" ++ name ++ "'"]⟩ := by
  have haccounts := Reading.accountsFor_of_breaksOff (.never texts)
  rw [dryRun, haccounts.report, haccounts.cues, hlisting]
  rfl

/-- Lines that are not cues make no difference to what is printed. -/
theorem output_dryRun_of_never {texts : List String} {listing : String}
    (hlisting : Cue.listing (Reading.cuesOn texts) = .ok listing) (name : String) :
    (dryRun name (Reading.ofLines (texts.map .ok))).output = listing := by
  rw [dryRun_of_never hlisting]
  split
  next => rfl
  next => rfl

/-- A check is exact, and what it prints passes a check that prints the same. -/
theorem dryRun_is_exact_and_idempotent {bytes : List UInt8}
    (hasks : AsksToCheck tree stdin arguments options (Text.readLines bytes)) :
    Verdict options.inputName (Text.readLines bytes) (run tree stdin arguments) ∧
      ((∀ line ∈ Text.readLines bytes, line.isOk) →
        ∀ (tree' : FileTree) (stdin' : List UInt8) (arguments' : List String) (options' : Options),
          AsksToCheck tree' stdin' arguments' options'
              (Text.readLines (Text.utf8 (run tree stdin arguments).output)) →
            run tree' stdin' arguments' = ⟨0, (run tree stdin arguments).output, ""⟩) := by
  rw [hasks.run_eq]
  obtain ⟨texts, fault?, hlines⟩ := Text.exists_breaksOff (Text.readLines bytes)
  cases fault? with
  | some fault =>
      have hmem := hlines.error_mem
      have hfault : fault = .notUtf8 := Text.eq_notUtf8_of_mem_readLines hmem
      subst hfault
      rw [dryRun_of_fault hlines]
      refine ⟨.unreadable hlines, ?_⟩
      intro hreadable
      cases hreadable _ hmem
  | none =>
      have hcues : ∀ cue ∈ Reading.cuesOn texts, cue.WellFormed := by
        intro cue hcue
        exact Reading.wellFormed_of_mem_cuesOn hcue
      obtain ⟨printed, hlisting, hprinted, hends⟩ := Cue.listing_eq_ok hcues
      have hall := hlines.eq_map_ok
      rw [hall] at hlines ⊢
      refine ⟨?_, ?_⟩
      · rw [dryRun_of_never hlisting]
        split
        next hnone =>
          refine .inOrder hlines hlisting ?_
          exact Reading.malformedAmong_eq_nil_iff.mp (List.eq_nil_of_length_eq_zero hnone)
        next hsome => exact .malformed hlines hlisting rfl (Nat.pos_of_ne_zero hsome)
      · rw [output_dryRun_of_never hlisting, Text.readLines_joinLines hends]
        intro _ tree' stdin' arguments' options' hagain
        obtain ⟨hreread, hmalformed⟩ := Reading.cuesOn_of_map_parse hprinted
        rw [← hreread] at hlisting
        rw [hagain.run_eq, dryRun_of_never hlisting, hmalformed]
        rfl

theorem dryRun_is_exact_and_idempotent_malformed :
    AsksToCheck ⟨[], [], []⟩ (Text.utf8 "\n00:01 0:02 00:03 [lEFT, Mauve] Hi!\nHo") ["--dry-run"]
        { dryRun := true }
        (Text.readLines (Text.utf8 "\n00:01 0:02 00:03 [lEFT, Mauve] Hi!\nHo")) ∧
      run ⟨[], [], []⟩ (Text.utf8 "\n00:01 0:02 00:03 [lEFT, Mauve] Hi!\nHo") ["--dry-run"] =
        ⟨1, "00:01 00:03 [Left, Mauve] Hi\n",
          "An error occurred: 1 malformed cue line(s) in '-'\n"⟩ ∧
      run ⟨[], [], []⟩ (Text.utf8 "00:01 00:03 [Left, Mauve] Hi\n") ["--dry-run"] =
        ⟨0, "00:01 00:03 [Left, Mauve] Hi\n", ""⟩ := by
  have hasks : AsksToCheck ⟨[], [], []⟩
      (Text.utf8 "\n00:01 0:02 00:03 [lEFT, Mauve] Hi!\nHo") ["--dry-run"] { dryRun := true }
      (Text.readLines (Text.utf8 "\n00:01 0:02 00:03 [lEFT, Mauve] Hi!\nHo")) :=
    ⟨by decide +kernel, rfl, by decide +kernel⟩
  have hrun : run ⟨[], [], []⟩ (Text.utf8 "\n00:01 0:02 00:03 [lEFT, Mauve] Hi!\nHo")
      ["--dry-run"] = ⟨1, "00:01 00:03 [Left, Mauve] Hi\n",
        "An error occurred: 1 malformed cue line(s) in '-'\n"⟩ := by
    decide +kernel
  obtain ⟨_, hagain⟩ := dryRun_is_exact_and_idempotent hasks
  refine ⟨hasks, hrun, ?_⟩
  rw [hrun] at hagain
  exact hagain (by decide +kernel) ⟨[], [], []⟩ (Text.utf8 "00:01 00:03 [Left, Mauve] Hi\n")
    ["--dry-run"] { dryRun := true } ⟨by decide +kernel, rfl, by decide +kernel⟩

end CommandLine

end Captions
