import VaultAgent.Disk.Lookup

/-!
# Sockets

A socket that is listened on has a file at its path, which stays when nobody listens any more.
-/

namespace VaultAgent.Disk

/-- The path of a socket is shorter than this. -/
def socketPathLimit : Nat := 108

def checkSocketPath (p : Path) : Except OsError Unit := do
  if '\x00' ∈ p.text.toList then throw .nulInSocketPath
  if (Utf8.bytes p.text).length ≥ socketPathLimit then throw .socketPathTooLong

/-- Makes a socket and listens on it. Gives its number. A socket without a path has no file. -/
def listen (p : Path) : DiskAction Nat := do
  Action.ofExcept id (checkSocketPath p)
  let number := (← get).nextSocket
  if !p.isEmpty then
    match ← ask (·.goal p) with
    | .directory _ => throw .addressInUse
    | .entry parent name slash =>
      let place ← ask fun _ => entry parent name
      if ((← get).node? place).isSome then throw .addressInUse
      if slash then throw .noEntry
      modify (·.put place (.socket (newMode 0o777) number))
  modify fun d => { d with listening := number :: d.listening, nextSocket := number + 1 }
  return number

/-- Stops listening. The file of the socket stays. -/
def close (id : Nat) (d : Disk) : Disk :=
  { d with listening := d.listening.filter (· ≠ id) }

/-- Connects to a socket that its owner may write to. Gives its number. The mode is looked at before it
is asked whether there is a socket, and whether somebody listens. -/
def connect (d : Disk) (p : Path) : Except OsError Nat := do
  checkSocketPath p
  let (place, node) ← d.find p
  match d.fault? (.connect place) with
  | some fault => throw fault.error
  | none =>
    match node with
    | .directory => throw .connectionRefused
    | .file mode _ => throw (if isWritable mode then .connectionRefused else .permissionDenied)
    | .socket mode id =>
      if !isWritable mode then throw .permissionDenied
      if id ∈ d.listening then return id else throw .connectionRefused

end VaultAgent.Disk
