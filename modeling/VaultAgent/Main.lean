import VaultAgent.Daemon
import VaultAgent.Vault.Rpc

/-!
The command line. The files that the program reads are fetched beforehand. Sockets are out of reach
here: no vault answers, and the one client that is served writes to the standard input and reads the
standard output.
-/

namespace VaultAgent.Main

open CommandLine (Environment Flags)

/-- The variables that the program looks at. -/
def consulted : List String :=
  ["HOME", "XDG_CONFIG_HOME", "KEYWARD_VAULT_SOCKET", "KEYWARD_AGENT_SOCKET", "KEYWARD_STORAGE"]

def environment : IO Environment := do
  let given ← consulted.mapM fun name => return (name, ← IO.getEnv name)
  return fun name => (given.lookup name).join

/-- The disk with the directories that a path leads through. -/
def withParents (p : Path) (d : Disk) : Disk :=
  match Disk.makeParents p d with
  | .ok _ d | .error _ d => d

/-- The disk with a file that cannot be read. -/
def withUnreadable (place : Place) (why : String) (d : Disk) : Disk :=
  { d.put place (.file Store.fileMode []) with
    fault? := fun step => if step = .read place then some ⟨.fault why, 0⟩ else d.fault? step }

/-- The disk with what is at a path. -/
def fetch (p : Path) (d : Disk) : IO Disk := do
  let d := withParents p d
  match d.locate p with
  | .error _ => return d
  | .ok place =>
    try
      return d.put place (.file Store.fileMode (← IO.FS.readBinFile p.text).toList)
    catch
      | .noFileOrDirectory .. => return d
      | e => return withUnreadable place (toString e) d

/-- The files that the program reads under these flags. -/
def fetchAll (env : Environment) (flags : Flags) : IO Disk := do
  let d ← fetch (Daemon.configPath env flags) Disk.empty
  match Daemon.loadConfig env flags d with
  | .ok config d => fetch config.agent.storage d
  | .error _ d => return d

/-- The pieces that come up to the end of a stream, behind those that came before. -/
partial def readAll (stream : IO.FS.Stream) (before : List (List UInt8)) :
    IO (List (List UInt8)) := do
  let bytes ← stream.read 65536
  if bytes.isEmpty then return before
  readAll stream (before ++ [bytes.toList])

/-- What the client says. There is none unless keys are served. -/
def clients (flags : Flags) : IO (List Protocol.Input) := do
  if flags.list || flags.importName.isSome then return []
  return [{ pieces := ← readAll (← IO.getStdin) [], ends := true }]

/-- The vault behind a socket that cannot be reached. -/
def vaultAt (socket : Path) : Vault :=
  Rpc.vault socket fun _ _ => .failed (.fault "sockets are out of reach")

def report (outcome : Daemon.Outcome) : IO UInt32 := do
  for line in outcome.lines do
    IO.println line
  if let some line := outcome.errorLine? then
    IO.eprintln line
  if let .served outputs := outcome then
    for output in outputs do
      (← IO.getStdout).write ⟨output.toArray⟩
  return UInt32.ofNat outcome.exitCode

end VaultAgent.Main

open VaultAgent VaultAgent.Main in
def main (args : List String) : IO UInt32 := do
  let env ← environment
  match CommandLine.flags env args with
  | .error stop => report (.stopped stop)
  | .ok flags =>
    let disk ← fetchAll env flags
    let now ← IO.monoNanosNow
    report (Daemon.run now args env vaultAt (← clients flags) ⟨disk, []⟩).1
