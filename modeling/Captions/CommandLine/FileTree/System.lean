import Captions.CommandLine.FileTree

/-! # The system around a command

The directories, devices and links that a running command finds besides its own
files. What has a name that changes from run to run, such as the number of the
process, stands under a name that no path can spell; links lead there.
-/

namespace Captions.CommandLine.FileTree

/-- A fresh directory for temporary files, named at random. -/
def freshDirectory : Place :=
  ["tmp", "/fresh"]

/-- The directory that describes the running process. -/
def processDirectory : Place :=
  ["proc", "/process"]

/-- The directory that describes the running thread of the process. -/
def threadDirectory : Place :=
  processDirectory ++ ["task", "/thread"]

/-- One of the streams that a command is started with. -/
def stream (number : String) : Place :=
  ["/stream", number]

/-- The directories that every system has. -/
def systemDirectories : List Place :=
  [["boot"], ["dev"], ["dev", "pts"], ["dev", "shm"], ["etc"], ["home"], ["media"], ["mnt"],
    ["opt"], ["root"], ["run"], ["srv"], ["tmp"], ["usr"], ["usr", "bin"], ["usr", "lib"],
    ["usr", "local"], ["usr", "sbin"], ["usr", "share"], ["var"], ["var", "lib"], ["var", "log"],
    ["var", "tmp"]]

/-- The directories that describe the system and its processes. -/
def descriptiveDirectories : List Place :=
  [["sys"], ["proc"], processDirectory, processDirectory ++ ["fd"], processDirectory ++ ["task"],
    threadDirectory, threadDirectory ++ ["fd"]]

/-- The devices that every system has, and the streams. A command that does not
run at a terminal has no terminal of its own. -/
def devices : List (Place × Node) :=
  [(["dev", "null"], .sink), (["dev", "full"], .sink), (["dev", "zero"], .sink),
    (["dev", "tty"], .disconnected), (stream "0", .standardInput), (stream "1", .sink),
    (stream "2", .sink)]

/-- What a running process can reach under the name of a descriptor. -/
def descriptor (number : String) (place : Place) : List (Place × Place) :=
  [(processDirectory ++ ["fd", number], place), (threadDirectory ++ ["fd", number], place)]

/-- The links that every system has, for a process in a working directory. -/
def systemLinks (workdir : Place) : List (Place × Place) :=
  [(["bin"], ["usr", "bin"]), (["lib"], ["usr", "lib"]), (["sbin"], ["usr", "sbin"]),
    (["dev", "fd"], ["proc", "self", "fd"]), (["dev", "stdin"], ["proc", "self", "fd", "0"]),
    (["dev", "stdout"], ["proc", "self", "fd", "1"]),
    (["dev", "stderr"], ["proc", "self", "fd", "2"]), (["proc", "self"], processDirectory),
    (["proc", "thread-self"], threadDirectory), (processDirectory ++ ["cwd"], workdir),
    (processDirectory ++ ["root"], []), (threadDirectory ++ ["cwd"], workdir),
    (threadDirectory ++ ["root"], [])]
    ++ ["0", "1", "2"].flatMap fun number => descriptor number (stream number)

/-- A system on which the working directory is fresh and holds the given files. -/
def ofFiles (files : List (String × List UInt8)) : FileTree where
  nodes :=
    files.map (fun (name, bytes) => (freshDirectory ++ segments name, .file bytes)) ++ devices
      ++ systemDirectories.map (·, .directory) ++ descriptiveDirectories.map (·, .systemDirectory)
  links := systemLinks freshDirectory
  workdir := freshDirectory

/-- Creates a file as `create` does and keeps it open. It gets the first number
that is free after the three streams. -/
def createFirst (path : String) (tree : FileTree) : Except SystemError FileTree := do
  let (place, tree) ← tree.create path
  return { tree with links := tree.links ++ descriptor "3" place }

end Captions.CommandLine.FileTree
