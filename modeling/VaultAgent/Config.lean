import VaultAgent.Disk.File
import VaultAgent.Duration
import VaultAgent.Toml.Parser

/-!
# The configuration

Where the agent and the vault have their sockets, where the secrets are stored, and how long a
vault is waited for. A configuration file is a TOML document; what it does not say keeps its
default, and what nobody asks for may say anything.
-/

namespace VaultAgent

structure AgentSettings where
  socket : Path := ⟨"/tmp/agent.sock"⟩
  storage : Path := ⟨"~/.bunkr/agent_storage.json"⟩
  deriving DecidableEq, Repr

structure VaultSettings where
  socket : Path := ⟨"/tmp/bunkr_daemon.sock"⟩
  timeoutSeconds : Nat := 30
  deriving DecidableEq, Repr

structure Config where
  agent : AgentSettings := {}
  vault : VaultSettings := {}
  deriving DecidableEq, Repr

/-- Why there is no configuration. -/
inductive ConfigError
  | reading (path : Path) (error : OsError)
  | parsing (path : Path)
  deriving DecidableEq, Repr

def ConfigError.message : ConfigError → String
  | reading path _ => s!"reading config {path.text}"
  | parsing path => s!"parsing config {path.text}"

/-- How long the vault is waited for: a second at least. -/
def VaultSettings.timeout (s : VaultSettings) : Duration :=
  .ofSeconds (max s.timeoutSeconds 1)

namespace Config

/-! ## Reading settings -/

/-- The value of a field that may go by several names. It is given under one of them at most. -/
def named? (entries : Toml.Entries) (names : List String) : Option (Option Toml) :=
  match names.filterMap (List.lookup · entries) with
  | [] => some none
  | [value] => some (some value)
  | _ => none

/-- The values of a section's fields. A section may also be an array of them in their order, and
more than them; a date as a section says nothing. -/
def fields? (fields : List (List String)) : Toml → Option (List (Option Toml))
  | .table _ entries => fields.mapM (named? entries)
  | .array items => some (fields.mapIdx fun i _ => items[i]?)
  | .tables rows => some (fields.mapIdx fun i _ => rows[i]?.map (.table .header))
  | .dateTime => some (fields.map fun _ => none)
  | _ => none

def path? (default : Path) : Option Toml → Option Path
  | none => some default
  | some (.string text) => some ⟨text⟩
  | some _ => none

def natural? (default : Nat) : Option Toml → Option Nat
  | none => some default
  | some (.integer n) => if n < 0 then none else some n.toNat
  | some _ => none

def agentSettings? (t : Toml) : Option AgentSettings := do
  let base : AgentSettings := {}
  match ← fields? [["socket_path", "socket"], ["storage_path", "storage"]] t with
  | [socket, storage] =>
    return { socket := ← path? base.socket socket, storage := ← path? base.storage storage }
  | _ => none

def vaultSettings? (t : Toml) : Option VaultSettings := do
  let base : VaultSettings := {}
  match ← fields? [["socket_path", "socket"], ["timeout_secs"]] t with
  | [socket, seconds] =>
    return {
      socket := ← path? base.socket socket
      timeoutSeconds := ← natural? base.timeoutSeconds seconds }
  | _ => none

/-- A section of a document, or its defaults. -/
def section? {α : Type} (default : α) (read : Toml → Option α) : Option Toml → Option α
  | none => some default
  | some t => read t

/-- What a document says. -/
def ofDocument? (entries : Toml.Entries) : Option Config := do
  return {
    agent := ← section? {} agentSettings? (entries.lookup "agent")
    vault := ← section? {} vaultSettings? (entries.lookup "vault") }

def ofText? (cs : List Char) : Option Config := do
  ofDocument? (← Toml.ofText? cs)

/-! ## The file -/

/-- Reads a configuration file. One that is not there says nothing. -/
def load (path : Path) : Action ConfigError Disk Config := do
  match ← Action.attempt (Disk.readText path) with
  | .error .noEntry => return {}
  | .error e => throw (.reading path e)
  | .ok cs =>
    match ofText? cs with
    | some config => return config
    | none => throw (.parsing path)

/-- The directory for configurations: the one that is set aside for them, or a place in the home
directory, or the working directory. A directory without a name does not count. -/
def directory (configHome home : Option String) : Path :=
  match configHome.filter (· ≠ ""), home.filter (· ≠ "") with
  | some dir, _ => ⟨dir⟩
  | none, some dir => (Path.mk dir).join ⟨".config"⟩
  | none, none => ⟨""⟩

/-- Where the configuration is read from if nothing else is said. -/
def defaultPath (configHome home : Option String) : Path :=
  ((directory configHome home).join ⟨"keyward"⟩).join ⟨"config.toml"⟩

end Config

end VaultAgent
