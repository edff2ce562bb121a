import VaultAgent.Agent
import VaultAgent.Disk.Socket
import VaultAgent.Text.Quoted

/-!
# The agent's socket

An agent binds its socket for its owner alone. The file of a socket that does not answer is taken for one
that is left over from an earlier run, and is replaced; a socket that answers, or anything else at the
path, is left alone. Between the steps of a bind others may act on the disk too.
-/

namespace VaultAgent.Agent

def onDisk {α : Type} (a : Disk.DiskAction α) : Action BindFault Disk α :=
  Action.onPart id (fun _ d => d) .system a

/-- Only the owner may connect. -/
def socketMode : Nat := 0o600

/-- Is there a socket at the path? Nothing else may be there. -/
def findSocket (socket : Path) : Action BindFault Disk Bool := do
  match (← get).look socket with
  | .ok (.socket ..) => return true
  | .ok _ => throw .notSocket
  | .error .noEntry => return false
  | .error e => throw (.system e)

/-- Refuses a path at which somebody answers. Whatever keeps it from asking is taken for silence. -/
def askSocket (socket : Path) : Action BindFault Disk Unit := do
  match (← get).connect socket with
  | .ok _ => throw .taken
  | .error _ => return

/-- Makes room for a socket: takes one away that does not answer. -/
def clearSocket (socket : Path) : Action BindFault Disk Unit := do
  if ← findSocket socket then
    askSocket socket
    onDisk (Disk.remove socket)

/-- Keeps others from a new socket, or else stops listening on it. -/
def protectSocket (socket : Path) (id : Nat) : Action BindFault Disk Unit := do
  match ← Action.attempt (Disk.setMode socket socketMode) with
  | .ok () => return
  | .error e =>
    modify (Disk.close id)
    throw (.system e)

/-- Listens on a new socket. Gives its number. -/
def openSocket (socket : Path) : Action BindFault Disk Nat := do
  onDisk (Disk.makeParents socket)
  let id ← onDisk (Disk.listen socket)
  protectSocket socket id
  return id

/-- Binds a socket and listens on it. Gives the number of the socket. -/
def bindSocket (socket : Path) : Action BindFault Disk Nat := do
  clearSocket socket
  openSocket socket

/-- Does something on the disk for the agent's socket. -/
def forSocket {α : Type} (a : Path → Action BindFault Disk α) : AgentAction α := do
  let socket := (← get).agent.socket
  Action.onPart (·.disk) (fun w disk => { w with disk }) (.bind socket) (a socket)

def bind : AgentAction Nat :=
  forSocket bindSocket

/-- Stops listening on a socket. -/
def dropListener (id : Nat) : AgentAction Unit :=
  modify fun w => { w with disk := w.disk.close id }

/-- Takes away the file at the agent's socket, if that is possible. -/
def shutdown : AgentAction Unit := do
  let socket := (← get).agent.socket
  modify fun w =>
    match Disk.remove socket w.disk with
    | .ok _ disk | .error _ disk => { w with disk }

/-- Serves one client. -/
def serveClientAlong (course : Protocol.Course) (vault : Vault) (input : Protocol.Input) :
    AgentAction (List UInt8 × Protocol.Ending) := fun w =>
  let served := Protocol.serveAlong course vault input ⟨w.agent.keyring, w.calls⟩
  .ok (served.output, served.ending)
    { w with
      agent := { w.agent with keyring := served.session.keyring }
      calls := served.session.calls }

/-- Serves one client at one time. -/
def serveClient (now : Nat) (vault : Vault) (input : Protocol.Input) :
    AgentAction (List UInt8 × Protocol.Ending) :=
  serveClientAlong (.prompt now) vault input

/-- Serves clients one after the other. -/
def serveClients (now : Nat) (vault : Vault) :
    List Protocol.Input → AgentAction (List (List UInt8))
  | [] => return []
  | input :: rest => do
    let (output, _) ← serveClient now vault input
    return output :: (← serveClients now vault rest)

/-- Binds the socket, serves clients until there are no more, and takes the socket away. -/
def run (now : Nat) (vault : Vault) (clients : List Protocol.Input) :
    AgentAction (List (List UInt8)) := do
  let id ← bind
  let outputs ← serveClients now vault clients
  dropListener id
  shutdown
  return outputs

/-- How an agent shows in diagnostics. -/
def debugText (a : Agent) (now : Nat) : String :=
  "SshAgent \x7b socket_path: " ++ Quoted.quote a.socket.text ++ ", keys: " ++
    toString (a.keyring.size now) ++ ", .. \x7d"

end VaultAgent.Agent
