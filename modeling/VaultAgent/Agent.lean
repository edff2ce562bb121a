import VaultAgent.Export
import VaultAgent.Protocol.Session
import VaultAgent.Store

/-!
# The agent

An agent ties a store of secrets to a keyring that serves their keys. It reads the store's file
again before each change, so that what other programs wrote is kept; a key that it imports is
either stored and served or neither.
-/

namespace VaultAgent

/-- Why a socket cannot be had. -/
inductive BindFault
  | system (error : OsError)
  /-- Somebody listens on the socket. -/
  | taken
  /-- What is at the path is no socket. -/
  | notSocket
  deriving DecidableEq, Repr

def BindFault.message : BindFault → String
  | system e => e.message
  | taken => "another agent is listening on this socket"
  | notSocket => "path exists and is not a socket"

inductive AgentError
  | bind (socket : Path) (fault : BindFault)
  /-- The public data of a secret is not a key. -/
  | invalidKey (name : String) (fault : Ssh.PublicKey.LineError)
  | store (error : StoreError)
  | keyring (error : KeyringError)
  | vault (error : VaultError)
  | importing (error : ImportError)
  deriving DecidableEq, Repr

def AgentError.message : AgentError → String
  | bind socket fault => s!"cannot bind agent socket {socket.text}: {fault.message}"
  | invalidKey name fault => s!"invalid public key for {name}: {fault.message}"
  | store e => e.message
  | keyring e => e.message
  | vault e => e.message
  | importing e => s!"import failed: {e.message}"

structure Agent where
  store : Store
  keyring : Keyring
  socket : Path
  /-- The vault is waited for no longer than this. -/
  timeout : Duration

namespace Agent

/-- An agent and what it works on. -/
structure World where
  agent : Agent
  disk : Disk
  /-- The calls made to the vault. -/
  calls : List VaultCall

abbrev AgentAction (α : Type) := Action AgentError World α

/-- How long a vault is waited for if nothing else is said. -/
def defaultTimeout : Duration :=
  .ofSeconds 30

def new (store : Store) (socket : Path) : Agent where
  store := store
  keyring := .empty
  socket := socket
  timeout := defaultTimeout

/-! ## Actions on its parts -/

def onStore {α : Type} (a : Store.StoreAction α) : AgentAction α :=
  Action.onPart (fun w => (w.agent.store, w.disk))
    (fun w s => { w with agent := { w.agent with store := s.1 }, disk := s.2 }) .store a

def onKeyring {α : Type} (a : Keyring.KeyringAction α) : AgentAction α :=
  Action.onPart (·.agent.keyring)
    (fun w keyring => { w with agent := { w.agent with keyring } }) .keyring a

/-- Asks the store as it is in memory. -/
def ofStore {α : Type} (ask : Store → Except StoreError α) : AgentAction α := do
  Action.ofExcept .store (ask (← get).agent.store)

/-! ## Keys -/

/-- All secrets in the file, in ascending order of their names. -/
def secrets : AgentAction (List Secret) := do
  onStore Store.reload
  ofStore Store.secrets

/-- The entry that serves a secret. It stays for good and asks nobody. -/
def entryFor (timeout : Duration) (secret : Secret) (key : Ssh.PublicKey) : Entry where
  signer := { key, secretName := secret.name, group := secret.vaultGroup, timeout }
  comment := secret.name
  lifetime := none
  confirm := false

/-- Serves the key of a secret. -/
def serveSecret (now : Nat) (secret : Secret) : AgentAction Unit := do
  let key ← Action.ofExcept (.invalidKey secret.name) (Ssh.PublicKey.ofLineBytes secret.publicData)
  let _ ← onKeyring (Keyring.add now (entryFor (← get).agent.timeout secret key))

/-- Serves the keys of several secrets, up to the first that has none. -/
def serveSecrets (now : Nat) : List Secret → AgentAction Unit
  | [] => return
  | secret :: rest => do
    serveSecret now secret
    serveSecrets now rest

/-- Serves the keys of all secrets in the file. Tells how many there are. -/
def serveStore (now : Nat) : AgentAction Nat := do
  let all ← secrets
  serveSecrets now all
  return all.length

/-- What the vault exports under a name. -/
def exportedSecret (vault : Vault) (name : String) : AgentAction Secret := do
  let before := (← get).calls
  modify fun w => { w with calls := before ++ [.exportKey name] }
  let answer := vault.exportKey before name
  let encoded ← Action.ofExcept .vault (answer.within (← get).agent.timeout)
  Action.ofExcept .importing (Secret.ofExport encoded name)

/-- Finds a secret that has been stored and serves its key. -/
def serveNamed (now : Nat) (name : String) : AgentAction Secret := do
  let stored ← ofStore (·.secret name)
  serveSecret now stored
  return stored

/-- Fetches a key from the vault, stores it and serves it. If it cannot be served, it is taken out
of the store again. -/
def importSecret (now : Nat) (vault : Vault) (name : String) : AgentAction Secret := do
  let secret ← exportedSecret vault name
  onStore Store.reload
  onStore (Store.insert secret)
  match ← Action.attempt (serveNamed now secret.name) with
  | .ok stored => return stored
  | .error e =>
    let _ : Except StoreError Store.Records ← onStore (Action.attempt (Store.remove secret.name))
    throw e

/-- The key of a record, if it has one. -/
def keyOf? (r : Store.Record) : Option Ssh.PublicKey :=
  match r.publicBytes with
  | .error _ => none
  | .ok bytes => (Ssh.PublicKey.ofLineBytes bytes).toOption

/-- Stops serving the keys of records. A record without a key is passed over. -/
def dropKeys : List (String × Store.Record) → AgentAction Unit
  | [] => return
  | (_, r) :: rest => do
    if let some key := keyOf? r then
      let _ ← onKeyring (Keyring.remove key)
    dropKeys rest

/-- Removes a name and all that is grouped under it from the store, and their keys from the
keyring. -/
def removeSecret (name : String) : AgentAction (List String) := do
  onStore Store.reload
  let removed ← onStore (Store.remove name)
  dropKeys removed.toList
  return removed.names

end Agent

end VaultAgent
