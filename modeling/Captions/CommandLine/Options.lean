import Captions.Frame
import Captions.Text.Decimal

/-! # Options

What the command line asks for. Arguments are taken from left to right; the first
one that makes no sense ends the reading, and so does a request for help.
-/

namespace Captions.CommandLine

/-- The settings of a run. -/
structure Options where
  /-- The name of the cue file; a single dash stands for standard input. -/
  input : Option String := none
  width : Option UInt16 := none
  height : Option UInt16 := none
  noFrame : Bool := false
  dryRun : Bool := false
  logFile : Option String := none
deriving DecidableEq, Repr

/-- What to do. -/
inductive Request where
  | run (options : Options)
  | help
deriving DecidableEq, Repr

/-- The short description of the command line. -/
def usage : String :=
  "Usage: captions [-i|--input FILE] [--width COLUMNS] [--height ROWS] [--no-frame] [--dry-run]"
    ++ " [--log-file FILE]\n"

/-- An option that takes a value. -/
inductive Setting where
  | input
  | width
  | height
  | logFile
deriving DecidableEq, Repr

/-- An option that takes none. -/
inductive Switch where
  | noFrame
  | dryRun
  | help
deriving DecidableEq, Repr

/-- What a single argument says. -/
inductive Argument where
  /-- A setting with its value, if that is part of the argument. -/
  | setting (setting : Setting) (value : Option String)
  | switch (switch : Switch)
  /-- The mark after which no options follow. -/
  | separator
  | unknown
deriving DecidableEq, Repr

namespace Argument

/-- An option by its long name, with the value after the equals sign. -/
def ofLong (name : String) (value : Option String) : Argument :=
  match name, value with
  | "input", value => setting .input value
  | "width", value => setting .width value
  | "height", value => setting .height value
  | "log-file", value => setting .logFile value
  | "no-frame", none => switch .noFrame
  | "dry-run", none => switch .dryRun
  | "help", none => switch .help
  | _, _ => unknown

/-- The characters before the first equals sign, and those after it. -/
def cutAtEquals (chars : List Char) : List Char × Option (List Char) :=
  match chars.dropWhile (· ≠ '=') with
  | _ :: value => (chars.takeWhile (· ≠ '='), some value)
  | [] => (chars, none)

/-- The value written in one argument with a short option: an equals sign before
it does not count. -/
def attached : List Char → Option String
  | [] => none
  | '=' :: value => some (String.ofList value)
  | value => some (String.ofList value)

/-- Reads one argument. -/
def ofChars : List Char → Argument
  | ['-', '-'] => separator
  | '-' :: '-' :: long =>
    let cut := cutAtEquals long
    ofLong (String.ofList cut.1) (cut.2.map String.ofList)
  | '-' :: 'i' :: rest => setting .input (attached rest)
  | '-' :: 'h' :: _ => switch .help
  | _ => unknown

end Argument

/-- The integer written with an optional sign, if it is one of the lengths from 0
to 65535. -/
def length? (text : String) : Option UInt16 :=
  let value : Option Nat :=
    match text.toList with
    | '+' :: digits => Text.decimal? digits
    | '-' :: digits => (Text.decimal? digits).filter (· = 0)
    | digits => Text.decimal? digits
  match value with
  | some n => if n ≤ 65535 then some n.toUInt16 else none
  | none => none

/-- Whether an argument can be the value of the option before it: it does not
look like an option itself. -/
def canBeValue (text : String) : Bool :=
  text = "-" || text.toList.head? != some '-'

namespace Options

/-- Makes a setting, which must not have been made before. -/
def set? (options : Options) (value : String) : Setting → Option Options
  | .input => if options.input.isNone then some { options with input := value } else none
  | .logFile => if options.logFile.isNone then some { options with logFile := value } else none
  | .width => do
    let length ← length? value
    if options.width.isNone then some { options with width := length } else none
  | .height => do
    let length ← length? value
    if options.height.isNone then some { options with height := length } else none

/-- Follows the arguments from left to right. There is no request in a command
line that makes no sense. -/
def follow (options : Options) : List String → Option Request
  | [] => some (.run options)
  | argument :: rest =>
    match Argument.ofChars argument.toList with
    | .separator => if rest = [] then some (.run options) else none
    | .switch .help => some .help
    | .switch .noFrame =>
      if options.noFrame then none else follow { options with noFrame := true } rest
    | .switch .dryRun =>
      if options.dryRun then none else follow { options with dryRun := true } rest
    | .setting setting (some value) =>
      match options.set? value setting with
      | some options => follow options rest
      | none => none
    | .setting setting none =>
      match rest with
      | value :: others =>
        if canBeValue value then
          match options.set? value setting with
          | some options => follow options others
          | none => none
        else none
      | [] => none
    | .unknown => none

/-- The name of the input. -/
def inputName (options : Options) : String :=
  options.input.getD "-"

/-- Whether the input is standard input. -/
def readsStandardInput (options : Options) : Bool :=
  options.inputName = "-"

/-- The viewport that was asked for; what is missing comes from the terminal, if
its size is known. -/
def viewport? (options : Options) (terminal : Option Viewport) : Option Viewport :=
  match options.width, options.height with
  | some width, some height => some ⟨width, height⟩
  | width, height =>
    terminal.map fun size => ⟨width.getD size.width, height.getD size.height⟩

end Options

/-- What a command line asks for, if it makes sense. -/
def Request.parse? (arguments : List String) : Option Request :=
  Options.follow {} arguments

end Captions.CommandLine
