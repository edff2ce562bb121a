import VaultAgent.Disk.Lookup

/-!
# Files

A file is opened empty and written from its beginning, and can be put in the place of another in one
step.
-/

namespace VaultAgent.Disk

def read (p : Path) : DiskAction (List UInt8) := do
  let (place, node) ← ask (·.find p)
  checkFault (.read place)
  match node with
  | .directory => throw .isDirectory
  | .socket .. => throw .noDevice
  | .file mode content =>
    if !isReadable mode then throw .permissionDenied
    return content

/-- Reads a file that is text. -/
def readText (p : Path) : DiskAction (List Char) := do
  match Utf8.decode (← read p) with
  | .ok cs => return cs
  | .error _ => throw .notText

/-- Makes the file at a path empty, or makes one there that was not. A file that is there keeps its
mode, which has to let its owner write; a new one is open for writing whatever its mode. -/
def openFile (p : Path) (mode : Nat) : DiskAction Place := do
  match ← ask (·.goal p) with
  | .directory _ | .entry _ _ true => throw .isDirectory
  | .entry parent name false =>
    let place ← ask fun _ => entry parent name
    checkFault (.openFile place)
    match (← get).node? place with
    | none => modify (·.put place (.file (newMode mode) []))
    | some .directory => throw .isDirectory
    | some (.socket ..) => throw .noDevice
    | some (.file mode _) =>
      if !isWritable mode then throw .permissionDenied
      modify (·.put place (.file mode []))
    return place

/-- Writes behind what a file holds. -/
def append (place : Place) (bytes : List UInt8) : DiskAction Unit := fun d =>
  match d.node? place with
  | some (.file mode content) =>
    match d.fault? (.write place) with
    | none => .ok () (d.put place (.file mode (content ++ bytes)))
    | some fault =>
      .error fault.error (d.put place (.file mode (content ++ bytes.take fault.written)))
  | _ => .error .noEntry d

/-- Puts the file at one path in the place of what is at another. Both paths end in a name. -/
def move (source target : Path) : DiskAction Unit := do
  match ← ask (·.goal source), ← ask (·.goal target) with
  | .entry sourceParent sourceName sourceSlash, .entry targetParent targetName targetSlash =>
    let s ← ask fun _ => entry sourceParent sourceName
    let t ← ask fun _ => entry targetParent targetName
    checkFault (.move s t)
    match (← get).node? s with
    | none => throw .noEntry
    | some .directory => throw .isDirectory
    | some node =>
      if sourceSlash || targetSlash then throw .notDirectory
      if (← get).node? t = some .directory then throw .isDirectory
      modify fun d => (d.drop s).put t node
  | _, _ => throw .busy

def remove (p : Path) : DiskAction Unit := do
  let (place, node) ← ask (·.find p)
  if node = .directory then throw .isDirectory
  checkFault (.remove place)
  modify (·.drop place)

def setMode (p : Path) (mode : Nat) : DiskAction Unit := do
  let (place, node) ← ask (·.find p)
  match node with
  | .directory => return
  | .file _ content => modify (·.put place (.file mode content))
  | .socket _ id => modify (·.put place (.socket mode id))

end VaultAgent.Disk
