import VaultAgent.Agent.Socket
import VaultAgent.CommandLine

/-!
# The daemon

The program that serves an agent: it reads its flags and its configuration, opens the store, and
then lists the stored secrets, imports one, or serves the stored keys until it is told to stop.
-/

namespace VaultAgent.Daemon

open CommandLine (Environment Flags Stop)

/-- Why the program fails. -/
inductive Failure
  | config (error : ConfigError)
  | opening (storage : Path) (error : StoreError)
  | listing (error : StoreError)
  | importing (name : String) (error : AgentError)
  | loading (error : AgentError)
  | serving (error : AgentError)
  deriving DecidableEq, Repr

/-- The first line of the report, which says what the program was about. -/
def Failure.headline : Failure → String
  | config e => e.message
  | opening storage _ => s!"opening key storage {storage.text}"
  | listing _ => "reading key storage"
  | importing name _ => s!"importing {name} from the vault"
  | loading _ => "loading stored keys"
  | serving _ => "agent socket failed"

/-- What the program works on: the disk, and the calls made to the vault. -/
structure Surroundings where
  disk : Disk
  calls : List VaultCall

abbrev DaemonAction (α : Type) := Action Failure Surroundings α

/-- How the program ends. -/
inductive Outcome
  /-- The arguments ask for help or the version, or cannot be followed. -/
  | stopped (stop : Stop)
  | failed (failure : Failure)
  /-- The lines that were printed. -/
  | printed (lines : List String)
  /-- What the clients were answered. -/
  | served (outputs : List (List UInt8))

def Outcome.exitCode : Outcome → Nat
  | stopped stop => stop.exitCode
  | failed _ => 1
  | printed _ | served _ => 0

def versionLine : String :=
  "keywardd 0.1.0"

/-- The lines on the standard output. -/
def Outcome.lines : Outcome → List String
  | stopped .version => [versionLine]
  | printed lines => lines
  | _ => []

/-- The line that reports a failure. -/
def Outcome.errorLine? : Outcome → Option String
  | failed failure => some ("Error: " ++ failure.headline)
  | _ => none

/-! ## Settings -/

/-- Where the configuration is read from. -/
def configPath (env : Environment) (flags : Flags) : Path :=
  flags.config.getD (Config.defaultPath (env "XDG_CONFIG_HOME") (env "HOME"))

/-- The configuration by the flags, the environment and the file. -/
def loadConfig (env : Environment) (flags : Flags) : Action ConfigError Disk Config := do
  return flags.apply (env "HOME") (← Config.load (configPath env flags))

/-! ## Doing what was asked for -/

/-- One line for each stored secret. -/
def list (store : Store) : Except StoreError (List String) := do
  return (← store.secrets).map Secret.summary

variable (now : Nat) (vault : Vault)

/-- Imports a secret. Gives its line. -/
def importNamed (name : String) : Agent.AgentAction String := do
  return (← Agent.importSecret now vault name).summary

/-- An action of an agent, as a part of the program. -/
def onAgent {α : Type} (agent : Agent) (cause : AgentError → Failure) (a : Agent.AgentAction α) :
    DaemonAction (Agent × α) :=
  Action.onPart (fun s => ⟨agent, s.disk, s.calls⟩) (fun _ w => ⟨w.disk, w.calls⟩) cause do
    let x ← a
    return ((← get).agent, x)

/-- Serves the stored keys to clients, one after the other. -/
def serve (agent : Agent) (clients : List Protocol.Input) : DaemonAction (List (List UInt8)) := do
  let (agent, _) ← onAgent agent .loading (Agent.serveStore now)
  let (_, outputs) ← onAgent agent .serving (Agent.run now vault clients)
  return outputs

/-- Does what the flags ask for. `vaultAt` is the vault behind a socket. -/
def act (env : Environment) (flags : Flags) (vaultAt : Path → Vault) (clients : List Protocol.Input) :
    DaemonAction Outcome := do
  let onDisk {ε α : Type} (cause : ε → Failure) (a : Action ε Disk α) : DaemonAction α :=
    Action.onPart (·.disk) (fun s disk => { s with disk }) cause a
  let config ← onDisk .config (loadConfig env flags)
  let store ← onDisk (.opening config.agent.storage) (Store.open config.agent.storage)
  if flags.list then
    return .printed (← Action.ofExcept .listing (list store))
  let agent :=
    { Agent.new store config.agent.socket with timeout := config.vault.timeout }
  let vault := vaultAt config.vault.socket
  match flags.importName with
  | some name =>
    let (_, line) ← onAgent agent (.importing name) (importNamed now vault name)
    return .printed [line]
  | none => return .served (← serve now vault agent clients)

/-- Runs the program. -/
def run (args : List String) (env : Environment) (vaultAt : Path → Vault)
    (clients : List Protocol.Input) (s : Surroundings) : Outcome × Surroundings :=
  match CommandLine.flags env args with
  | .error stop => (.stopped stop, s)
  | .ok flags =>
    match act now env flags vaultAt clients s with
    | .ok outcome s => (outcome, s)
    | .error failure s => (.failed failure, s)

end VaultAgent.Daemon
