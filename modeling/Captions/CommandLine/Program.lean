import Captions.Cue.Printer
import Captions.CommandLine.FileTree.System
import Captions.CommandLine.Options
import Captions.Display.Terminal
import Captions.Session

/-! # The program

A run of the command line either checks a cue file and lists its cues, or plays
it on the terminal. It takes the same course on every host, on the system of the
machine as among files that are given as data. What it writes depends on the order
in which cues appear and disappear, not on how long it waits between them.
-/

namespace Captions.CommandLine

/-- What a run leaves behind: the exit code, the standard output, and the report
of the error that ended it. -/
structure Outcome where
  exitCode : Nat := 0
  output : String := ""
  report : String := ""
deriving DecidableEq, Repr

/-- The report of an error: what failed on the first line, then each cause on an
indented line of its own. -/
def errorReport : List String → String
  | [] => ""
  | error :: causes =>
    "An error occurred: " ++ error ++ "\n"
      ++ String.join (causes.map fun cause => "    " ++ cause ++ "\n")

/-- A run that ended with an error after writing some output. -/
def Outcome.failed (output : String) (chain : List String) : Outcome where
  exitCode := 1
  output
  report := errorReport chain

/-- What a run leaves behind that an error may have ended before it wrote anything. -/
def Outcome.ofExcept : Except (List String) Outcome → Outcome
  | .ok outcome => outcome
  | .error chain => .failed "" chain

/-- The complaint about an input with lines that are not cues. -/
def malformedMessage (count : Nat) (name : String) : String :=
  toString count ++ " malformed cue line(s) in '" ++ name ++ "'"

/-- The complaint about a log file that cannot be created. -/
def logFileMessage (path : String) : String :=
  "Failed to create log file: '" ++ path ++ "'"

/-- The complaint about an input that cannot be opened. -/
def openMessage (path : String) : String :=
  "Failed to open input file: '" ++ path ++ "'"

/-- The complaint about an input of which a line cannot be read. -/
def readMessage (name : String) : String :=
  "Failed to read cues from '" ++ name ++ "'"

/-- The complaint about a terminal that does not tell its size. -/
def sizeMessage : String :=
  "Failed to query the terminal size"

/-- Checks an input. If all its lines can be read, its cues are listed in
canonical form, and lines that are not cues make the run fail. -/
def dryRun (name : String) (reading : Reading) : Outcome :=
  match reading.report, Cue.listing reading.cues with
  | .error error, _ => .failed "" error.chain
  | .ok _, .error error => .failed "" error.chain
  | .ok counts, .ok listing =>
    if counts.rejected = 0 then { output := listing }
    else .failed listing [malformedMessage counts.rejected name]

/-- A session on a terminal made ready for it, with the border drawn if wanted. -/
def opening (bordered : Bool) (frame : Frame) (terminal : Terminal) : Session Terminal :=
  let board : Board Terminal := { frame, display := terminal.enter.2 }
  .start (if bordered then board.drawBorder.board else board)

/-- The terminal handed back at the end of a session. -/
def closing (session : Session Terminal) : Terminal :=
  session.board.display.leave.2

/-- The end of a session: a line that could not be read is reported only after
the terminal was handed back. -/
def conclude (name : String) (output : String) : Option ReadError → Outcome
  | none => { output }
  | some error => .failed output (readMessage name :: error.chain)

/-- What a run needs of the system around it. A log is open for writing, an input
for reading. What the system cannot do it explains in its own words. -/
structure Host (m : Type → Type) (Log Input : Type) where
  standardError : m Log
  createLog (path : String) : m (Except String Log)
  standardInput : m Input
  openInput (path : String) : m (Except String Input)
  /-- The size of the terminal, if it is known. -/
  terminalSize : m (Option Viewport)
  /-- Reads an input to its end or to the line that cannot be read. -/
  read (log : Log) (input : Input) : m Reading
  /-- Plays an input until all triggers have fired. Answers with the session and
  with the error that ended the input, if there was one. -/
  play (log : Log) (input : Input) (session : Session Terminal) :
    m (Session Terminal × Option ReadError)

namespace Host

section Runs

variable {m : Type → Type} [Monad m] {Log Input : Type}

/-- Does something that the system may not be able to do, which ends the run with
a complaint. -/
def attempt {α : Type} (complaint : String) (action : m (Except String α)) :
    ExceptT (List String) m α := do
  match ← action with
  | .ok value => return value
  | .error reason => throw [complaint, reason]

/-- Creates the log file if one is wanted, then opens the input. -/
def openFiles (host : Host m Log Input) (options : Options) :
    ExceptT (List String) m (Log × Input) := do
  let log ← match options.logFile with
    | none => host.standardError
    | some path => attempt (logFileMessage path) (host.createLog path)
  let input ←
    if options.readsStandardInput then host.standardInput
    else attempt (openMessage options.inputName) (host.openInput options.inputName)
  return (log, input)

/-- Checks or plays an input that was opened. -/
def process (host : Host m Log Input) (options : Options) (log : Log) (input : Input) :
    ExceptT (List String) m Outcome := do
  if options.dryRun then
    return dryRun options.inputName (← host.read log input)
  let some viewport := options.viewport? (← host.terminalSize) | throw [sizeMessage]
  let some frame := Frame.ofViewport? viewport | throw [viewport.tooSmallMessage]
  let played ← host.play log input (opening (!options.noFrame) frame {})
  return conclude options.inputName (closing played.1).out played.2

/-- A run with the given settings. -/
def execute (host : Host m Log Input) (options : Options) : m Outcome :=
  Outcome.ofExcept <$> ExceptT.run do
    let opened ← host.openFiles options
    host.process options opened.1 opened.2

/-- A run of the command line. Arguments that make no sense end it with exit
code 2. -/
def run (host : Host m Log Input) (arguments : List String) : m Outcome :=
  match Request.parse? arguments with
  | none => return { exitCode := 2 }
  | some .help => return { output := usage }
  | some (.run options) => host.execute options

end Runs

/-- A system with files and without a terminal. All lines of an input are there
from the beginning, and nothing is kept of the log. -/
def ofFiles (stdin : List UInt8) : Host (StateM FileTree) Unit (List Text.LineRead) where
  standardError := return ()
  createLog path := do
    match (← get).createFirst path with
    | .ok tree =>
      set tree
      return .ok ()
    | .error error => return .error error.message
  standardInput := return Text.readLines stdin
  openInput path := return ((← get).openLines path stdin).mapError SystemError.message
  terminalSize := return none
  read _ lines := return Reading.ofLines lines
  play _ lines session :=
    return ((session.ingest lines).2.session.playOut.session, (Reading.ofLines lines).failure)

end Host

/-- The lines of the input that a run among files opens. -/
def openFiles (options : Options) (stdin : List UInt8) (tree : FileTree) :
    Except (List String) (List Text.LineRead) :=
  (((Host.ofFiles stdin).openFiles options).run.run tree).run.1.map Prod.snd

/-- A run of the command line with files to read and write. -/
def run (tree : FileTree) (stdin : List UInt8) (arguments : List String) : Outcome :=
  (((Host.ofFiles stdin).run arguments).run tree).run.1

/-- A run among files that has opened its input goes on with that, wherever its log
went. -/
theorem run_of_openFiles {tree : FileTree} {stdin : List UInt8} {arguments : List String}
    {options : Options} {lines : List Text.LineRead}
    (hrequest : Request.parse? arguments = some (.run options))
    (hopened : openFiles options stdin tree = .ok lines) :
    ∃ later, run tree stdin arguments =
      .ofExcept (((Host.ofFiles stdin).process options () lines).run.run later).run.1 := by
  cases hfiles : ((Host.ofFiles stdin).openFiles options).run.run tree with
  | mk result later =>
      have hresult : result = .ok ((), lines) := by
        rw [openFiles, hfiles] at hopened
        cases result with
        | ok files =>
            cases hopened
            rfl
        | error chain => cases hopened
      refine ⟨later, ?_⟩
      simp only [run, Host.run, hrequest, Host.execute, StateT.run_map, ExceptT.run_bind,
        StateT.run_bind, hfiles, hresult]
      rfl

end Captions.CommandLine
