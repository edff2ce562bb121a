import VaultAgent.Action

/-!
# Files, directories and sockets

A disk as programs see it that share it: at each place a directory, a file with its mode and
content, or the file of a socket, and the sockets that somebody listens on. Every action takes
steps that either happen or fail; a disk may also have faults of its own that make a step fail.
-/

namespace VaultAgent

/-- Why the system refuses a step. -/
inductive OsError
  | noEntry
  | exists
  | notDirectory
  | isDirectory
  | nameTooLong
  | busy
  /-- The mode of a file forbids it to its owner. -/
  | permissionDenied
  /-- A socket was opened as a file. -/
  | noDevice
  | addressInUse
  | connectionRefused
  | connectionReset
  | brokenPipe
  /-- A name with a NUL in it. -/
  | nulInName
  /-- The path of a socket with a NUL in it. -/
  | nulInSocketPath
  | socketPathTooLong
  /-- A file that was to be text is not UTF-8. -/
  | notText
  /-- A fault of the disk, with its text. -/
  | fault (text : String)
  deriving DecidableEq, Repr

def OsError.message : OsError → String
  | noEntry => "No such file or directory (os error 2)"
  | .exists => "File exists (os error 17)"
  | notDirectory => "Not a directory (os error 20)"
  | isDirectory => "Is a directory (os error 21)"
  | nameTooLong => "File name too long (os error 36)"
  | permissionDenied => "Permission denied (os error 13)"
  | busy => "Device or resource busy (os error 16)"
  | noDevice => "No such device or address (os error 6)"
  | addressInUse => "Address already in use (os error 98)"
  | connectionRefused => "Connection refused (os error 111)"
  | connectionReset => "Connection reset by peer (os error 104)"
  | brokenPipe => "Broken pipe (os error 32)"
  | nulInName => "file name contained an unexpected NUL byte"
  | nulInSocketPath => "paths must not contain interior null bytes"
  | socketPathTooLong => "path must be shorter than SUN_LEN"
  | notText => "stream did not contain valid UTF-8"
  | fault text => text

/-- A place by the names that lead to it, the last one first. The working directory is the empty
list. A place outside of it ends in `/`, or in as many `..` as lead up to where it branches off. -/
abbrev Place := List String

/-- The place that `..` leads to. -/
def Place.above : Place → Place
  | [] => [".."]
  | ["/"] => ["/"]
  | ".." :: rest => ".." :: ".." :: rest
  | _ :: rest => rest

inductive Node
  | directory
  | file (mode : Nat) (content : List UInt8)
  /-- The file of the socket with this number. -/
  | socket (mode : Nat) (id : Nat)
  deriving DecidableEq, Repr

/-- The steps that a disk may have a fault at. -/
inductive DiskStep
  | read (place : Place)
  | makeDirectory (place : Place)
  | openFile (place : Place)
  | write (place : Place)
  | sync (place : Place)
  | move (source target : Place)
  | remove (place : Place)
  | connect (place : Place)
  deriving DecidableEq, Repr

/-- A fault: its error and, at a write, how many bytes are written all the same. -/
structure DiskFault where
  error : OsError
  written : Nat
  deriving DecidableEq, Repr

structure Disk where
  node? : Place → Option Node
  /-- The numbers of the sockets that somebody listens on. -/
  listening : List Nat
  /-- The number of the next socket. -/
  nextSocket : Nat
  fault? : DiskStep → Option DiskFault

namespace Disk

abbrev DiskAction (α : Type) := Action OsError Disk α

/-- The mode bits that a new file does not get. -/
def umask : Nat := 0o022

/-- A disk with an empty working directory, those above it, and an empty `/tmp`. -/
def empty : Disk where
  node? p :=
    if p.all (· = "..") ∨ p = ["/"] ∨ p = ["tmp", "/"] then some .directory else none
  listening := []
  nextSocket := 0
  fault? _ := none

def put (d : Disk) (place : Place) (node : Node) : Disk :=
  { d with node? := fun p => if p = place then some node else d.node? p }

def drop (d : Disk) (place : Place) : Disk :=
  { d with node? := fun p => if p = place then none else d.node? p }

/-- The mode of a new file for which `mode` was asked. -/
def newMode (mode : Nat) : Nat :=
  mode &&& (0o777 - umask)

/-- May the owner read a file of this mode? -/
def isReadable (mode : Nat) : Bool :=
  mode &&& 0o400 ≠ 0

/-- May the owner write a file of this mode? -/
def isWritable (mode : Nat) : Bool :=
  mode &&& 0o200 ≠ 0

/-- Takes a step unless the disk has a fault there. -/
def checkFault (step : DiskStep) : DiskAction Unit := fun d =>
  match d.fault? step with
  | none => .ok () d
  | some fault => .error fault.error d

/-- Asks the disk, which stays as it is. -/
def ask {α : Type} (question : Disk → Except OsError α) : DiskAction α := do
  Action.ofExcept id (question (← get))

end Disk

end VaultAgent
