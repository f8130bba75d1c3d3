import Captions.CommandLine.Program

/-! # The command line

The effects of a run: files, streams and the passing of time. Lines are taken in
while the session plays, so captions can be piped in as they are written.
-/

namespace Captions.CommandLine.Main

/-- The error of the system in the words of the report. -/
def systemMessage : IO.Error → String
  | .noFileOrDirectory .. => SystemError.notFound.message
  | .inappropriateType _ 20 _ => SystemError.notDirectory.message
  | .inappropriateType _ 21 _ => SystemError.isDirectory.message
  | error => toString error

/-- Opens a file. If that fails, the answer is what the system says about it. -/
def openFile (path : String) (mode : IO.FS.Mode) : IO (Except String IO.FS.Stream) := do
  match ← (IO.FS.Handle.mk path mode).toBaseIO with
  | .ok handle => return .ok (.ofHandle handle)
  | .error error => return .error (systemMessage error)

/-- The lines that arrived and were not taken in yet, and whether there will be
no more. -/
structure Inbox where
  lines : Array Text.LineRead := #[]
  closed : Bool := false

/-- Reads the bytes of a line, its end included; none at the end of the input. -/
partial def readBytes (stream : IO.FS.Stream) (bytes : ByteArray) : IO ByteArray := do
  let next ← stream.read 1
  if next.isEmpty then return bytes
  let bytes := bytes ++ next
  if next[0]? == some Text.lineFeed then return bytes else readBytes stream bytes

/-- Reads the next line, if there is one. -/
def readLine? (stream : IO.FS.Stream) : IO (Option Text.LineRead) := do
  match ← (readBytes stream .empty).toBaseIO with
  | .ok bytes => return (Text.readLines bytes.toList).head?
  | .error error => return some (.error (.system (systemMessage error)))

/-- Puts lines into the inbox as they arrive, up to one that cannot be read. -/
partial def collect (stream : IO.FS.Stream) (inbox : IO.Ref Inbox) : IO Unit := do
  match ← readLine? stream with
  | none => inbox.modify fun box => { box with closed := true }
  | some line =>
    let last := match line with
      | .ok _ => false
      | .error _ => true
    inbox.modify fun box => { box with lines := box.lines.push line, closed := last }
    unless last do collect stream inbox

/-- Reads all lines up to one that cannot be read. -/
partial def readAll (stream : IO.FS.Stream) (lines : Array Text.LineRead) :
    IO (List Text.LineRead) := do
  match ← readLine? stream with
  | none => return lines.toList
  | some (.ok line) => readAll stream (lines.push (.ok line))
  | some fault => return (lines.push fault).toList

/-- Writes events to the log, warnings and worse. -/
def log (sink : IO.FS.Stream) (events : List Event) : IO Unit :=
  for event in events.filter (Event.passes .warn) do
    let particulars := event.fields.map fun (name, value) =>
      match value with
      | .text value => " " ++ name ++ "=" ++ value
      | .number value => " " ++ name ++ "=" ++ toString value
    sink.putStrLn (event.level.name ++ " " ++ event.message ++ String.join particulars)

/-- Sends what a terminal was given to standard output. -/
def send (terminal : Terminal) : IO Terminal := do
  let stdout ← IO.getStdout
  stdout.putStr terminal.out
  stdout.flush
  return terminal.rewind

/-- Sends what a session has drawn to standard output. -/
def present (session : Session Terminal) : IO (Session Terminal) := do
  let terminal ← send session.board.display
  return { session with board := { session.board with display := terminal } }

/-- Plays lines as they arrive until there are no more and every trigger has
fired. Answers with the session and the error that ended the input, if any. -/
partial def follow (sink : IO.FS.Stream) (inbox : IO.Ref Inbox) (start number : Nat)
    (failure : Option ReadError) (session : Session Terminal) :
    IO (Session Terminal × Option ReadError) := do
  let box ← inbox.modifyGet fun box => (box, { box with lines := #[] })
  let reading := Reading.numbered number box.lines.toList
  let taken := session.takeInAll reading.entries
  log sink taken.events
  let now ← IO.monoMsNow
  let turn := taken.session.advance (now - start)
  log sink turn.events
  let session ← present turn.session
  let failure := failure <|> reading.failure
  if box.closed && session.agenda.isIdle then return (session, failure)
  IO.sleep 5
  follow sink inbox start (number + box.lines.size) failure session

/-- Plays the cues of a stream on the terminal. -/
def play (sink stream : IO.FS.Stream) (session : Session Terminal) :
    IO (Session Terminal × Option ReadError) := do
  let session ← present session
  let inbox ← IO.mkRef ({} : Inbox)
  let _ ← IO.asTask (collect stream inbox) .dedicated
  follow sink inbox (← IO.monoMsNow) 1 none session

/-- Reads the cues of a stream. -/
def read (sink stream : IO.FS.Stream) : IO Reading := do
  let reading := Reading.ofLines (← readAll stream #[])
  log sink reading.events
  return reading

/-- The size of the terminal, as far as the environment tells it. -/
def terminalSize : IO (Option Viewport) := do
  let columns := (← IO.getEnv "COLUMNS").bind length?
  let rows := (← IO.getEnv "LINES").bind length?
  return columns.bind fun width => rows.map fun height => ⟨width, height⟩

/-- The system that the command runs on. -/
def host : Host IO IO.FS.Stream IO.FS.Stream where
  standardError := IO.getStderr
  createLog path := openFile path .write
  standardInput := IO.getStdin
  openInput path := openFile path .read
  terminalSize
  read
  play

end Captions.CommandLine.Main

open Captions.CommandLine in
/-- Runs the command line and writes out what that leaves behind. -/
def main (arguments : List String) : IO UInt32 := do
  let outcome ← Main.host.run arguments
  let stdout ← IO.getStdout
  stdout.putStr outcome.output
  stdout.flush
  (← IO.getStderr).putStr outcome.report
  if (Request.parse? arguments).isNone then (← IO.getStderr).putStr usage
  return outcome.exitCode.toUInt32
