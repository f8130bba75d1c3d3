import Captions.Text.Lines

/-! # File trees

What a command can reach by a path: directories, files, devices, and links that
lead to any of them. A path is followed part by part; how far it gets decides why
it could not be opened.
-/

namespace Captions.CommandLine

/-- Why a path could not be opened. -/
inductive SystemError where
  | notFound
  | noDevice
  | notDirectory
  | isDirectory
  | nameTooLong
  | tooManyLinks
deriving DecidableEq, Repr

/-- The words of the system for an error. -/
def SystemError.message : SystemError → String
  | notFound => "No such file or directory (os error 2)"
  | noDevice => "No such device or address (os error 6)"
  | notDirectory => "Not a directory (os error 20)"
  | isDirectory => "Is a directory (os error 21)"
  | nameTooLong => "File name too long (os error 36)"
  | tooManyLinks => "Too many levels of symbolic links (os error 40)"

/-- The names that lead from the root to a file or directory. A name that holds a
slash cannot be spelled in a path; only links lead there. -/
abbrev Place := List String

/-- What there is at a place. -/
inductive Node where
  | directory
  /-- A directory of which the system itself decides what is in it. -/
  | systemDirectory
  | file (bytes : List UInt8)
  /-- A device that takes what is written to it and gives no lines. -/
  | sink
  /-- A device that is not connected to anything. -/
  | disconnected
  /-- The standard input of the command. -/
  | standardInput
deriving DecidableEq, Repr

/-- Everything that can be reached. -/
structure FileTree where
  nodes : List (Place × Node)
  /-- Places that stand for other ones. -/
  links : List (Place × Place)
  /-- Where relative paths start. -/
  workdir : Place
deriving Repr

namespace FileTree

/-- The parts of a path between its slashes. -/
def segments (path : String) : List String :=
  path.splitOn "/"

/-- What there is at a place. Everything on the way to something is a directory. -/
def node? (place : Place) (tree : FileTree) : Option Node :=
  match tree.nodes.lookup place with
  | some node => some node
  | none =>
    if place.isPrefixOf tree.workdir || tree.nodes.any fun node => place.isPrefixOf node.1 then
      some .directory
    else none

/-- The place with a name in a directory. It need not exist, unless the system
decides what is in the directory; a name that is not in use there must not be too
long. -/
def child (tree : FileTree) (directory : Place) (name : String) : Except SystemError Place :=
  let place := directory ++ [name]
  if (tree.node? place).isSome then .ok place
  else if tree.node? directory = some .systemDirectory then .error .notFound
  else if 255 < name.utf8ByteSize then .error .nameTooLong
  else .ok place

/-- Whether what is at a place holds other places. -/
def checkDirectory (tree : FileTree) (place : Place) : Except SystemError Unit :=
  match tree.node? place with
  | some .directory | some .systemDirectory => .ok ()
  | some _ => .error .notDirectory
  | none => .error .notFound

/-- Follows the parts of a path from a place. Only directories can be gone
through. Where a link is met, the way goes on from the root along its target; the
given number of links may be met. -/
def walk (tree : FileTree) (links : Nat) (place : Place) : List String → Except SystemError Place
  | [] => .ok place
  | segment :: rest =>
    match tree.checkDirectory place with
    | .error error => .error error
    | .ok () =>
      if segment = "" ∨ segment = "." then tree.walk links place rest
      else if segment = ".." then tree.walk links place.dropLast rest
      else
        match tree.links.lookup (place ++ [segment]), links with
        | some target, links + 1 => tree.walk links [] (target ++ rest)
        | some _, 0 => .error .tooManyLinks
        | none, links =>
          match tree.child place segment with
          | .error error => .error error
          | .ok next => tree.walk links next rest
termination_by segments => (links, segments.length)

/-- Follows the parts of a path, given the path itself. The empty path leads
nowhere, and neither does one that the system finds too long. -/
def follow (path : String) (parts : List String) (tree : FileTree) : Except SystemError Place :=
  if path = "" then .error .notFound
  else if 4095 < path.utf8ByteSize then .error .nameTooLong
  else tree.walk 40 (if path.startsWith "/" then [] else tree.workdir) parts

/-- The place that a path leads to. -/
def locate (path : String) (tree : FileTree) : Except SystemError Place :=
  tree.follow path (segments path)

/-- The place of a file to be created. A path that ends in a slash cannot name a
file; it leads to the directory in which it was to be, its last name unread. -/
def locateNew (path : String) (tree : FileTree) : Except SystemError Place :=
  let names := (segments path).filter (· ≠ "")
  tree.follow path (names.dropLast ++ [if path.endsWith "/" then "." else names.getLastD "."])

/-- The lines of the file at a path. A directory can be opened too, but no line of
it can be read. -/
def openLines (path : String) (stdin : List UInt8) (tree : FileTree) :
    Except SystemError (List Text.LineRead) := do
  match tree.node? (← tree.locate path) with
  | none => throw .notFound
  | some .disconnected => throw .noDevice
  | some .directory | some .systemDirectory =>
    return [.error (.system SystemError.isDirectory.message)]
  | some (.file bytes) => return Text.readLines bytes
  | some .sink => return []
  | some .standardInput => return Text.readLines stdin

/-- Creates an empty file at a path, or empties the one that is there. A device
stays what it is. -/
def create (path : String) (tree : FileTree) : Except SystemError (Place × FileTree) := do
  let place ← tree.locateNew path
  match tree.node? place with
  | some .directory | some .systemDirectory => throw .isDirectory
  | some .disconnected => throw .noDevice
  | some .sink | some .standardInput => return (place, tree)
  | some (.file _) | none =>
    return (place, { tree with nodes := (place, .file []) :: tree.nodes })

end FileTree

end Captions.CommandLine
