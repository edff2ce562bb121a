import VaultAgent.Disk.Lookup

/-!
# Directories

To make a directory with those that it stands in, the longest ancestor is sought that is there or
can be made, and what is missing is made from there on.
-/

namespace VaultAgent.Disk

/-- Makes the directory at a path. -/
def makeDirectory (p : Path) : DiskAction Unit := do
  match ← ask (·.goal p) with
  | .directory _ => throw .exists
  | .entry parent name _ =>
    let place ← ask fun _ => entry parent name
    if ((← get).node? place).isSome then throw .exists
    checkFault (.makeDirectory place)
    modify (·.put place .directory)

/-- Makes the directory at a path unless it is there. -/
def ensureDirectory (p : Path) : DiskAction Unit := do
  match ← Action.attempt (makeDirectory p) with
  | .ok () => return
  | .error e => if e ≠ .exists || !(← get).isDirectory p then throw e

/-- Ensures the first of the directories for which there is a place. Gives those in front of it,
the last one first. -/
def ensureFirst : List Path → (missing : List Path) → DiskAction (List Path)
  | [], missing => return missing
  | p :: ps, missing => do
    match ← Action.attempt (ensureDirectory p) with
    | .ok () => return missing
    | .error .noEntry => ensureFirst ps (p :: missing)
    | .error e => throw e

/-- Makes a directory and those that it stands in. -/
def makeDirectories (p : Path) : DiskAction Unit := do
  (← ensureFirst p.ancestors []).forM ensureDirectory

/-- Makes the directories that a path leads through. -/
def makeParents (p : Path) : DiskAction Unit :=
  makeDirectories p.parent

end VaultAgent.Disk
