import Captions.CommandLine.Program
import Captions.Proofs.Board.Box
import Captions.Proofs.Board.Displays
import Captions.Proofs.Reading
import Captions.Proofs.Session.Calls
import Captions.Proofs.Text.Lines

/-! # Playing an input

A terminal takes every call, so what it is given in a session are the lines of the box and what
the triggers draw, between the text that prepares it and the text that hands it back. A line that
cannot be read ends the input, but not the session.
-/

namespace Captions

/-- The calls that show the text of a cue and erase it at once, unless its colour is unknown. Each
time the caret is brought to rest. -/
def Cue.flash (frame : Frame) (cue : Cue) : List Call :=
  match Color.resolve cue.color with
  | .ok color =>
    let position := frame.layout (cue.placement.getD .centered) cue.text.length
    [.move position, .paint cue.text color, .move .origin, .flush,
      .move position, .paint (String.ofList (List.replicate cue.text.length ' ')) .default,
      .move .origin, .flush]
  | .error _ => []

theorem Cue.flash_of_not_isDrawable {cue : Cue} (hcue : ¬ cue.IsDrawable) (frame : Frame) :
    cue.flash frame = [] := by
  cases hcolor : Color.resolve cue.color with
  | ok color => exact absurd (exists_resolve_eq_ok.mp ⟨color, hcolor⟩) hcue
  | error error => simp only [flash, hcolor]

namespace Agenda

/-- Cues without delay fire in the order of arming, whatever the clock is set to. -/
theorem fire_armAll_of_due {cues : List Cue}
    (htimes : ∀ cue ∈ cues, cue.showAt = 0 ∧ cue.hideAt = 0) (target : Nat) :
    ((({} : Agenda).armAll cues).fire 0 target).1 = Trigger.ofCues 0 cues := by
  have hordered : ∀ cue ∈ cues, cue.showAt ≤ cue.hideAt := by
    intro cue hcue
    rw [(htimes cue hcue).1]
    exact Nat.zero_le _
  have hfresh : (({} : Agenda).armAll cues).fresh = Trigger.ofCues 0 cues := by
    rw [((ledger_empty 0).armAll hordered).fresh_eq, cancelled_armAll]
    simp
  have hdue : ∀ trigger ∈ Trigger.ofCues 0 cues, trigger.due = 0 := by
    intro trigger htrigger
    obtain ⟨cue, hcue, hpair⟩ := Trigger.mem_ofCues_zero.mp htrigger
    obtain ⟨hshow, hhide⟩ := htimes cue (List.mem_of_getElem? hcue)
    rcases Trigger.mem_pair.mp hpair with hown | hown
    · rw [hown]
      exact hshow
    · rw [hown]
      exact hhide
  have hlate : (({} : Agenda).armAll cues).late 0 = Trigger.ofCues 0 cues := by
    rw [late, hfresh, List.filter_eq_self]
    intro trigger htrigger
    simp [hdue trigger htrigger]
  have hqueue : (({} : Agenda).armAll cues).queue 0 = [] := by
    have hnone : (Trigger.ofCues 0 cues).filter (0 < ·.due) = [] := by
      rw [List.filter_eq_nil_iff]
      intro trigger htrigger
      simp [hdue trigger htrigger]
    rw [queue, hfresh, hnone, waiting_armAll]
    rfl
  rw [fire, hlate, hqueue, List.filter_nil, List.append_nil]

end Agenda

namespace Trigger

/-- A cue that is drawn and erased leaves the record as it was. -/
theorem calls_pair (frame : Frame) (id : Nat) (cue : Cue) :
    calls frame {} (pair id cue) = cue.flash frame ∧ replay {} (pair id cue) = {} := by
  cases hcolor : Color.resolve cue.color with
  | ok color =>
      have hdrawable : cue.IsDrawable := Cue.exists_resolve_eq_ok.mp ⟨color, hcolor⟩
      have hplace : (Shown.insert cue.text (cue.placement.getD .centered) {}).find? cue.text =
          some (cue.placement.getD .centered) := by
        rw [Shown.find?_insert, if_pos rfl]
      refine ⟨?_, ?_⟩
      · simp only [pair, calls, mark, Action.mark, Action.calls, Mark.apply, Cue.flash, hcolor,
          if_pos hdrawable, hplace, List.append_nil]
        rfl
      · refine Shown.eq_empty ?_
        intro text htext
        rw [Shown.mem_texts] at htext
        simp only [replay, pair, List.foldl_cons, List.foldl_nil, mark, Action.mark, Mark.apply,
          if_pos hdrawable, Shown.find?_erase, Shown.find?_insert] at htext
        split at htext
        next => exact htext rfl
        next => exact htext rfl
  | error error =>
      have hdrawable := Cue.not_isDrawable_of_resolve_eq_error hcolor
      refine ⟨?_, ?_⟩
      · simp only [pair, calls, mark, Action.mark, Action.calls, Mark.apply, Cue.flash, hcolor,
          if_neg hdrawable, Shown.find?_empty, List.append_nil]
      · simp only [replay, pair, List.foldl_cons, List.foldl_nil, mark, Action.mark, Mark.apply,
          if_neg hdrawable]
        exact Shown.erase_of_find?_eq_none (Shown.find?_empty _)

theorem calls_ofCues (frame : Frame) (first : Nat) (cues : List Cue) :
    calls frame {} (ofCues first cues) = cues.flatMap (Cue.flash frame) ∧
      replay {} (ofCues first cues) = {} := by
  induction cues generalizing first with
  | nil => exact ⟨rfl, rfl⟩
  | cons cue rest ih =>
      obtain ⟨hcalls, hreplay⟩ := calls_pair frame first cue
      obtain ⟨hcallsRest, hreplayRest⟩ := ih (first + 1)
      refine ⟨?_, ?_⟩
      · rw [ofCues, calls_append, hcalls, hreplay, hcallsRest, List.flatMap_cons]
      · rw [ofCues, replay_append, hreplay, hreplayRest]

end Trigger

theorem Terminal.isReliable {terminal : Terminal} (hplugged : terminal.plugged) :
    Display.IsReliable terminal := by
  obtain ⟨out, plugged⟩ := terminal
  subst hplugged
  intro calls
  rw [carryOut_plugged]

namespace CommandLine

variable {viewport : Viewport} {frame : Frame}

/-- The calls before the first cue: the lines of the box from top to bottom, if it is wanted. -/
def frameCalls (noFrame : Bool) (frame : Frame) : List Call :=
  if noFrame then []
  else
    (List.range (frame.border.innerHeight.toNat + 2)).flatMap frame.border.lineCalls ++
      [.move .origin, .flush]

theorem frameCalls_false (frame : Frame) :
    frameCalls false frame = Board.borderCalls frame.border ++ Board.park := by
  rw [frame.border.borderCalls_eq_flatMap]
  rfl

/-- The text that a terminal is given in a session that draws at most one cue. -/
def screenText (noFrame : Bool) (frame : Frame) (cue? : Option Cue) : String :=
  "\x1b[?25l\x1b[2J\x1b[1;1H" ++
    String.join ((frameCalls noFrame frame ++
      match cue? with
      | some cue => cue.flash frame
      | none => []).map Call.escapes) ++
    "\x1b[0m\x1b[1;1H\x1b[?25h"

theorem isWithin_of_mem_flash (hframe : Frame.ofViewport? viewport = some frame) (cue : Cue) :
    ∀ call ∈ cue.flash frame, call.IsWithin viewport := by
  have hposition := Frame.layout_lt hframe (cue.placement.getD .centered) cue.text.length
  have hrest := Board.isWithin_of_mem_park hframe (.move .origin) List.mem_cons_self
  rw [Cue.flash]
  split
  next color _ =>
    simp only [List.forall_mem_cons]
    exact ⟨hposition, trivial, hrest, trivial, hposition, trivial, hrest, trivial, nofun⟩
  next => nofun

theorem isWithin_of_mem_frameCalls (hframe : Frame.ofViewport? viewport = some frame)
    (noFrame : Bool) : ∀ call ∈ frameCalls noFrame frame, call.IsWithin viewport := by
  cases noFrame with
  | true => nofun
  | false =>
      rw [frameCalls_false]
      refine List.forall_mem_append.mpr ⟨?_, ?_⟩
      · exact Board.isWithin_of_mem_borderCalls hframe
      · exact Board.isWithin_of_mem_park hframe

/-- The terminal at the beginning of a session has been given the border, if it is wanted, and no
text is on the record. -/
theorem opening_eq (noFrame : Bool) (frame : Frame) :
    opening (!noFrame) frame {} =
      .start ⟨frame, ⟨Terminal.entrance ++
        String.join ((frameCalls noFrame frame).map Terminal.encode), true⟩, {}⟩ := by
  have hentered : (({} : Terminal).enter).2 = ⟨Terminal.entrance, true⟩ := by
    simp [Terminal.enter, Terminal.write]
  rw [opening, hentered]
  cases noFrame with
  | true => simp [frameCalls]
  | false =>
      rw [frameCalls_false]
      simp [Board.drawBorder, Board.draw, Terminal.carryOut_plugged, String.append_assoc]

/-- Cues without delay are played in the order of their lines. -/
theorem display_playOut {lines : List Text.LineRead}
    (htimes : ∀ cue ∈ (Reading.ofLines lines).cues, cue.showAt = 0 ∧ cue.hideAt = 0)
    (frame : Frame) (out : String) :
    ((Session.start (⟨frame, ⟨out, true⟩, {}⟩ : Board Terminal)).ingest
        lines).2.session.playOut.session.board.display =
      ⟨out ++ String.join (((Reading.ofLines lines).cues.flatMap (Cue.flash frame)).map
        Terminal.encode), true⟩ := by
  have hsession : ((Session.start (⟨frame, ⟨out, true⟩, {}⟩ : Board Terminal)).ingest
      lines).2.session =
        { Session.start (⟨frame, ⟨out, true⟩, {}⟩ : Board Terminal) with
          agenda := ({} : Agenda).armAll (Reading.ofLines lines).cues } :=
    Session.takeInAll_session _ _
  rw [hsession, Session.playOut]
  generalize hplayed : ({ Session.start (⟨frame, ⟨out, true⟩, {}⟩ : Board Terminal) with
    agenda := ({} : Agenda).armAll (Reading.ofLines lines).cues } : Session Terminal) = session
  have hkeeps : session.Keeps Display.IsReliable := by
    rw [← hplayed]
    exact ⟨rfl, Terminal.isReliable rfl⟩
  have hfired : (session.advance session.agenda.horizon).fired =
      Trigger.ofCues 0 (Reading.ofLines lines).cues := by
    rw [(Session.advance_session session rfl).1, ← hplayed]
    exact Agenda.fire_armAll_of_due htimes _
  rw [(Session.advance_eq_actAll session _).2.1, Session.display_actAll_of_keeps hkeeps, hfired,
    ← hplayed]
  have hcalls : Trigger.calls frame {} (Trigger.ofCues 0 (Reading.ofLines lines).cues) = _ :=
    (Trigger.calls_ofCues frame 0 (Reading.ofLines lines).cues).1
  simp only [Session.start, hcalls, Terminal.carryOut_plugged]

/-- What is drawn of cues of which at most one can be drawn. -/
theorem flatMap_flash {cues : List Cue}
    (hsingle : (cues.filter fun cue => cue.IsDrawable).length ≤ 1) (frame : Frame) :
    cues.flatMap (Cue.flash frame) =
      match cues.find? fun cue => cue.IsDrawable with
      | some cue => cue.flash frame
      | none => [] := by
  have hdrawable : cues.flatMap (Cue.flash frame) =
      (cues.filter fun cue => cue.IsDrawable).flatMap (Cue.flash frame) := by
    clear hsingle
    induction cues with
    | nil => rfl
    | cons cue rest ih =>
        rw [List.flatMap_cons, ih, List.filter_cons]
        split
        next => rfl
        next hcue => rw [Cue.flash_of_not_isDrawable (by simpa using hcue), List.nil_append]
  rw [hdrawable, ← List.head?_filter]
  generalize cues.filter (fun cue => cue.IsDrawable) = drawable at hsingle
  cases drawable with
  | nil => rfl
  | cons cue rest =>
      have hrest : rest = [] := by
        rw [List.length_cons] at hsingle
        exact List.eq_nil_of_length_eq_zero (by omega)
      rw [hrest]
      exact List.append_nil _

/-- In a viewport the terminal is given the escape sequences for the calls. -/
theorem out_closing {lines : List Text.LineRead}
    (hframe : Frame.ofViewport? viewport = some frame)
    (htimes : ∀ cue ∈ (Reading.ofLines lines).cues, cue.showAt = 0 ∧ cue.hideAt = 0)
    (hsingle : ((Reading.ofLines lines).cues.filter fun cue => cue.IsDrawable).length ≤ 1)
    (noFrame : Bool) :
    (closing ((opening (!noFrame) frame {}).ingest lines).2.session.playOut.session).out =
      screenText noFrame frame ((Reading.ofLines lines).cues.find? fun cue => cue.IsDrawable) := by
  have hescapes : (frameCalls noFrame frame ++
      (Reading.ofLines lines).cues.flatMap (Cue.flash frame)).map Terminal.encode =
        (frameCalls noFrame frame ++
          (Reading.ofLines lines).cues.flatMap (Cue.flash frame)).map Call.escapes := by
    refine List.map_congr_left ?_
    intro call hcall
    rcases List.mem_append.mp hcall with hborder | hcue
    · exact Terminal.encode_eq_escapes (isWithin_of_mem_frameCalls hframe noFrame call hborder)
    · obtain ⟨cue, _, hflash⟩ := List.mem_flatMap.mp hcue
      exact Terminal.encode_eq_escapes (isWithin_of_mem_flash hframe cue call hflash)
  rw [opening_eq, closing, display_playOut htimes, String.append_assoc, ← String.join_append,
    ← List.map_append, hescapes, flatMap_flash hsingle]
  simp only [Terminal.leave, Terminal.write, if_true, Terminal.entrance_eq, Terminal.exit_eq]
  rfl

/-- The command line asks for playing an input in a viewport. The input can be opened and has these
lines. -/
structure AsksToPlay (tree : FileTree) (stdin : List UInt8) (arguments : List String)
    (options : Options) (viewport : Viewport) (lines : List Text.LineRead) : Prop where
  request : Request.parse? arguments = some (.run options)
  dryRun : options.dryRun = false
  width : options.width = some viewport.width
  height : options.height = some viewport.height
  opened : openFiles options stdin tree = .ok lines

/-- What a session may leave behind. -/
inductive Playback (options : Options) (viewport : Viewport) (lines : List Text.LineRead) :
    Outcome → Prop
  /-- There is no room for a frame, and the terminal is left alone. -/
  | tooSmall (hframe : Frame.ofViewport? viewport = none) :
      Playback options viewport lines
        ⟨1, "", errorReport ["viewport " ++ toString viewport.width.toNat ++ "x" ++
          toString viewport.height.toNat ++ " is too small to hold a frame"]⟩
  /-- All lines could be read. -/
  | finished {frame : Frame} {texts : List String}
      (hframe : Frame.ofViewport? viewport = some frame)
      (hlines : Text.BreaksOff lines texts none) :
      Playback options viewport lines
        ⟨0, screenText options.noFrame frame
          ((Reading.cuesOn texts).find? fun cue => cue.IsDrawable), ""⟩
  /-- A line could not be read. The cues before it are played to the end. -/
  | unreadable {frame : Frame} {texts : List String} {fault : Text.ReadFault}
      (hframe : Frame.ofViewport? viewport = some frame)
      (hlines : Text.BreaksOff lines texts (some fault)) :
      Playback options viewport lines
        ⟨1, screenText options.noFrame frame
          ((Reading.cuesOn texts).find? fun cue => cue.IsDrawable),
          errorReport ["Failed to read cues from '" ++ options.inputName ++ "'",
            "Failed to read cue line " ++ toString (texts.length + 1), fault.message]⟩

variable {tree : FileTree} {stdin : List UInt8} {arguments : List String} {options : Options}
  {lines : List Text.LineRead}

theorem AsksToPlay.run_eq (hasks : AsksToPlay tree stdin arguments options viewport lines) :
    run tree stdin arguments =
      match Frame.ofViewport? viewport with
      | none => .failed "" [viewport.tooSmallMessage]
      | some frame =>
        let ingested := (opening (!options.noFrame) frame {}).ingest lines
        conclude options.inputName (closing ingested.2.session.playOut.session).out
          (Reading.ofLines lines).failure := by
  have hviewport : options.viewport? none = some viewport := by
    simp only [Options.viewport?, hasks.width, hasks.height]
  obtain ⟨later, hrun⟩ := run_of_openFiles hasks.request hasks.opened
  have hunknown (next : Option Viewport → ExceptT (List String) (StateM FileTree) Outcome) :
      (do next (← (Host.ofFiles stdin).terminalSize)) = next none := rfl
  rw [hrun, Host.process, if_neg (by simp [hasks.dryRun]), hunknown, hviewport]
  dsimp only
  cases Frame.ofViewport? viewport with
  | none => rfl
  | some frame => rfl

/-- A session hands the terminal back, whatever lines it was given. -/
theorem session_restores_terminal
    (hasks : AsksToPlay tree stdin arguments options viewport lines)
    (htimes : ∀ cue ∈ (Reading.ofLines lines).cues, cue.showAt = 0 ∧ cue.hideAt = 0)
    (hsingle : ((Reading.ofLines lines).cues.filter fun cue => cue.IsDrawable).length ≤ 1) :
    Playback options viewport lines (run tree stdin arguments) := by
  rw [hasks.run_eq]
  cases hframe : Frame.ofViewport? viewport with
  | none => exact .tooSmall hframe
  | some frame =>
      obtain ⟨texts, fault?, hlines⟩ := Text.exists_breaksOff lines
      have hout := out_closing hframe htimes hsingle options.noFrame
      rw [(Reading.accountsFor_of_breaksOff hlines).cues] at hout
      dsimp only
      rw [hout, Reading.failure_of_breaksOff hlines]
      cases fault? with
      | none => exact .finished hframe hlines
      | some fault => exact .unreadable hframe hlines

theorem session_restores_terminal_in_both_modes :
    (AsksToPlay ⟨[], [], []⟩ (Text.utf8 "00:00 00:00 Hi\n") ["--width=8", "--height", "4"]
        { width := some 8, height := some 4 } ⟨8, 4⟩
        (Text.readLines (Text.utf8 "00:00 00:00 Hi\n")) ∧
      Playback { width := some 8, height := some 4 } ⟨8, 4⟩
        (Text.readLines (Text.utf8 "00:00 00:00 Hi\n"))
        ⟨0, "\x1b[?25l\x1b[2J\x1b[1;1H" ++
            "\x1b[1;1H\x1b[38;5;15m╔════╗\x1b[0m" ++ "\x1b[2;1H\x1b[38;5;15m║    ║\x1b[0m" ++
            "\x1b[3;1H\x1b[38;5;15m║    ║\x1b[0m" ++ "\x1b[4;1H\x1b[38;5;15m╚════╝\x1b[0m" ++
            "\x1b[1;1H" ++ "\x1b[2;4H\x1b[38;5;15mHi\x1b[0m\x1b[1;1H" ++
            "\x1b[2;4H\x1b[38;5;15m  \x1b[0m\x1b[1;1H" ++ "\x1b[0m\x1b[1;1H\x1b[?25h", ""⟩) ∧
    AsksToPlay ⟨[], [], []⟩
        (Text.utf8 "Ho\n00:00 00:00 [Top, Mauve] Ho\n00:00 00:00 [Top, Red] Hi\n" ++ [255])
        ["--width=8", "--height", "4", "--no-frame"]
        { width := some 8, height := some 4, noFrame := true } ⟨8, 4⟩
        (Text.readLines (Text.utf8
          "Ho\n00:00 00:00 [Top, Mauve] Ho\n00:00 00:00 [Top, Red] Hi\n" ++ [255])) ∧
      Playback { width := some 8, height := some 4, noFrame := true } ⟨8, 4⟩
        (Text.readLines (Text.utf8
          "Ho\n00:00 00:00 [Top, Mauve] Ho\n00:00 00:00 [Top, Red] Hi\n" ++ [255]))
        ⟨1, "\x1b[?25l\x1b[2J\x1b[1;1H" ++ "\x1b[2;4H\x1b[38;5;9mHi\x1b[0m\x1b[1;1H" ++
            "\x1b[2;4H\x1b[38;5;15m  \x1b[0m\x1b[1;1H" ++ "\x1b[0m\x1b[1;1H\x1b[?25h",
          "An error occurred: Failed to read cues from '-'\n    Failed to read cue line 4\n" ++
            "    stream did not contain valid UTF-8\n"⟩ := by
  have hframed : AsksToPlay ⟨[], [], []⟩ (Text.utf8 "00:00 00:00 Hi\n")
      ["--width=8", "--height", "4"] { width := some 8, height := some 4 } ⟨8, 4⟩
      (Text.readLines (Text.utf8 "00:00 00:00 Hi\n")) :=
    ⟨by decide +kernel, rfl, rfl, rfl, by decide +kernel⟩
  have hbare : AsksToPlay ⟨[], [], []⟩
      (Text.utf8 "Ho\n00:00 00:00 [Top, Mauve] Ho\n00:00 00:00 [Top, Red] Hi\n" ++ [255])
      ["--width=8", "--height", "4", "--no-frame"]
      { width := some 8, height := some 4, noFrame := true } ⟨8, 4⟩
      (Text.readLines (Text.utf8
        "Ho\n00:00 00:00 [Top, Mauve] Ho\n00:00 00:00 [Top, Red] Hi\n" ++ [255])) :=
    ⟨by decide +kernel, rfl, rfl, rfl, by decide +kernel⟩
  refine ⟨⟨hframed, ?_⟩, hbare, ?_⟩
  · convert session_restores_terminal hframed (by decide +kernel) (by decide +kernel) using 1
    decide +kernel
  · convert session_restores_terminal hbare (by decide +kernel) (by decide +kernel) using 1
    decide +kernel

end CommandLine

end Captions
