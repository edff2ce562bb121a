import VaultAgent.Disk
import VaultAgent.Path
import VaultAgent.Text.Utf8

/-!
# Where paths lead

A path is taken piece by piece from the root or the working directory. All but its last piece have
to lead through directories that are there; `goal` says what the last one names, and `find` what is
at it.
-/

namespace VaultAgent.Disk

/-- The longest name, in bytes. -/
def maxName : Nat := 255

/-- A path is shorter than this, in bytes. -/
def pathLimit : Nat := 4096

/-- The place of a name in a directory. -/
def entry (parent : Place) (name : String) : Except OsError Place :=
  if (Utf8.bytes name).length > maxName then .error .nameTooLong else .ok (name :: parent)

/-- Refuses a place that is no directory. -/
def enter (d : Disk) (place : Place) : Except OsError Unit :=
  match d.node? place with
  | none => .error .noEntry
  | some .directory => .ok ()
  | some _ => .error .notDirectory

/-- Goes on from a directory. -/
def step (d : Disk) (place : Place) (piece : String) : Except OsError Place := do
  d.enter place
  if piece = "." then return place
  else if piece = ".." then return place.above
  else entry place piece

/-- What the last piece of a path names. -/
inductive Goal
  /-- A directory that is there: the root, or where `.` and `..` lead. -/
  | directory (place : Place)
  /-- A name in a directory that is there, maybe with a slash behind it. -/
  | entry (parent : Place) (name : String) (slash : Bool)
  deriving DecidableEq, Repr

/-- The place that is named. There need not be anything at it. -/
def Goal.place : Goal → Except OsError Place
  | .directory place => .ok place
  | .entry parent name _ => Disk.entry parent name

/-- Where a path begins. -/
def start (p : Path) : Place :=
  if p.isAbsolute then ["/"] else []

/-- Goes through all but the last piece of a path. -/
def goal (d : Disk) (p : Path) : Except OsError Goal := do
  if '\x00' ∈ p.text.toList then throw .nulInName
  if p.isEmpty then throw .noEntry
  if (Utf8.bytes p.text).length ≥ pathLimit then throw .nameTooLong
  let parent ← p.pieces.dropLast.foldlM d.step (start p)
  match p.pieces.getLast? with
  | none => return .directory parent
  | some last =>
    d.enter parent
    if last = "." then return .directory parent
    else if last = ".." then return .directory parent.above
    else return .entry parent last p.endsInSlash

/-- The place that a path leads to. There need not be anything at it. -/
def locate (d : Disk) (p : Path) : Except OsError Place := do
  (← d.goal p).place

/-- The place that a path leads to, and what is there. With a slash behind its name it has to be a
directory. -/
def find (d : Disk) (p : Path) : Except OsError (Place × Node) := do
  let goal ← d.goal p
  let place ← goal.place
  match d.node? place, goal with
  | none, _ => throw .noEntry
  | some .directory, _ => return (place, .directory)
  | some _, .entry _ _ true => throw .notDirectory
  | some node, _ => return (place, node)

/-- What is at a path. -/
def look (d : Disk) (p : Path) : Except OsError Node :=
  (d.find p).map (·.2)

/-- Is there a directory at a path? -/
def isDirectory (d : Disk) (p : Path) : Bool :=
  match d.look p with
  | .ok .directory => true
  | _ => false

end VaultAgent.Disk
