import VaultAgent.Disk.Directory
import VaultAgent.Disk.File
import VaultAgent.Store.Resolve

/-!
# The store

A store is a document in memory and the path of the file that it is kept in. Every change is written
to the file before it counts: first into a file beside it, which is then put in its place, so that a
reader finds the old document or the new one. If that fails, the change is taken back.
-/

namespace VaultAgent

structure Store where
  path : Path
  records : Store.Records
  deriving Repr

namespace Store

/-- What a store does to itself and to the disk. -/
abbrev StoreAction (α : Type) := Action StoreError (Store × Disk) α

def onDisk {α : Type} (a : Disk.DiskAction α) : StoreAction α :=
  Action.onPart (·.2) (fun w d => (w.1, d)) .io a

/-! ## The file -/

/-- Reads the records in a file. A file that is not there holds none. -/
def readRecords (path : Path) : Action StoreError Disk Records := do
  match ← Action.attempt (Disk.read path) with
  | .error .noEntry => return NameMap.empty
  | .error e => throw (.io e)
  | .ok bytes =>
    match Records.ofDocument? bytes with
    | some m => return m
    | none => throw (.corrupt (.document path))

/-- Only the owner may read and write the file. -/
def fileMode : Nat := 0o600

/-- Puts a file with this content at a path, through one beside it. -/
def replaceFile (path : Path) (content : List UInt8) : Disk.DiskAction Unit := do
  Disk.makeParents path
  let beside := path.extend ".tmp"
  let place ← Disk.openFile beside fileMode
  Disk.append place content
  Disk.checkFault (.sync place)
  Disk.move beside path

/-- Writes the records to the file. -/
def persist : StoreAction Unit := do
  let (s, _) ← get
  onDisk (replaceFile s.path s.records.toDocument)

/-! ## Opening and reading -/

def «open» (path : Path) : Action StoreError Disk Store := do
  return { path, records := ← readRecords path }

/-- Reads the file again. -/
def reload : StoreAction Unit := do
  let (s, _) ← get
  let records ← Action.onPart (·.2) (fun w d => (w.1, d)) id (readRecords s.path)
  modify fun w => ({ w.1 with records }, w.2)

/-- The secret that is stored under a name. -/
def secret (s : Store) (name : String) : Except StoreError Secret :=
  s.records.secret name

/-- All secrets in ascending order of their names. -/
def secrets (s : Store) : Except StoreError (List Secret) :=
  s.records.secrets

/-- The secrets of a type. -/
def secretsOfType (s : Store) (secretType : String) : Except StoreError (List Secret) := do
  return (← s.secrets).filter (·.secretType = secretType)

def contains (s : Store) (name : String) : Bool :=
  s.records.contains name

def size (s : Store) : Nat :=
  s.records.size

def isEmpty (s : Store) : Bool :=
  s.records.isEmpty

/-! ## Changes -/

/-- Changes the records and writes them. If that fails, `takeBack` undoes the change. -/
def change (apply takeBack : Records → Records) : StoreAction Unit := do
  modify fun w => ({ w.1 with records := apply w.1.records }, w.2)
  match ← Action.attempt persist with
  | .ok () => return
  | .error e =>
    modify fun w => ({ w.1 with records := takeBack w.1.records }, w.2)
    throw e

/-- Stores a new secret. Its name must be free and its parent stored. -/
def insert (secret : Secret) : StoreAction Unit := do
  let (s, _) ← get
  if s.contains secret.name then throw (.alreadyExists secret.name)
  if let some group := secret.groupName? then
    if !s.contains group then throw (.notFound group)
  change (·.insert secret.name (.ofSecret secret)) (·.erase secret.name)

/-- Removes a name and all that is grouped under it. Gives the removed records, of which there are
none if the name is not stored. -/
def remove (name : String) : StoreAction Records := do
  let (s, _) ← get
  if !s.contains name then return NameMap.empty
  let doomed := s.records.cascade name
  let removed := NameMap.ofList (s.records.extract doomed).1
  change (fun m => (m.extract doomed).2) (·.insertAll removed.toList)
  return removed

end Store

end VaultAgent
