import VaultAgent.Proofs.Agent.Binding

/-!
# Calls on an agent, step by step

What an agent does about its socket is done in steps, and others may act before the next one. A `Task` is
what is left of a call. Its steps one right after the other are what the agent runs (`Task.rest_eq`,
`Deed.rest_task`). A step that fails takes nothing away (`Task.grows_of_error`), and to look and to ask
changes nothing (`Task.after_of_looks`).
-/

namespace VaultAgent.Agent

open VaultAgent.Action
open Disk

variable {w w' : World} {place : Place} {node : Node} {mode id : Nat}

/-! ## The steps of a bind -/

/-- What a bind does next. -/
inductive Stage
  | find
  | ask
  | remove
  | makeParents
  | listen
  | protect (id : Nat)
  deriving DecidableEq, Repr

namespace Stage

/-- A step gives what a bind does next, or the number of the socket. -/
def step (stage : Stage) (socket : Path) : Action BindFault Disk (Stage ⊕ Nat) :=
  match stage with
  | find => do return .inl (if ← findSocket socket then ask else makeParents)
  | ask => do
    askSocket socket
    return .inl remove
  | remove => do
    onDisk (Disk.remove socket)
    return .inl makeParents
  | makeParents => do
    onDisk (Disk.makeParents socket)
    return .inl listen
  | listen => do return .inl (protect (← onDisk (Disk.listen socket)))
  | protect id => do
    protectSocket socket id
    return .inr id

/-- What is left of a bind. -/
def rest (stage : Stage) (socket : Path) : Action BindFault Disk Nat :=
  match stage with
  | find => bindSocket socket
  | ask => do
    askSocket socket
    onDisk (Disk.remove socket)
    openSocket socket
  | remove => do
    onDisk (Disk.remove socket)
    openSocket socket
  | makeParents => openSocket socket
  | listen => do
    let id ← onDisk (Disk.listen socket)
    protectSocket socket id
    return id
  | protect id => do
    protectSocket socket id
    return id

theorem rest_eq (stage : Stage) (socket : Path) : stage.rest socket = (do
    match ← stage.step socket with
    | .inl next => next.rest socket
    | .inr id => return id) := by
  cases stage with
  | find =>
    simp only [rest, step, bindSocket, clearSocket, bind_assoc, pure_bind]
    congr 1
    funext found
    cases found <;> simp
  | ask | remove | makeParents | listen | protect id =>
    simp only [rest, step, openSocket, bind_assoc, pure_bind]

/-- What a step leaves of the disk. -/
theorem after_step (stage : Stage) (p : Path) (d : Disk) : (stage.step p).after d =
    match stage with
    | find | ask => d
    | remove => (Disk.remove p).after d
    | makeParents => (Disk.makeParents p).after d
    | listen => (Disk.listen p).after d
    | protect id => (protectSocket p id).after d := by
  cases stage with
  | find => exact after_bind_pure.trans (asks_findSocket p d)
  | ask => exact after_bind_pure.trans (asks_askSocket p d)
  | remove | makeParents | listen => exact after_bind_pure.trans (after_onDisk _ d)
  | protect id => exact after_bind_pure

end Stage

/-! ## Calls -/

/-- What an agent does about its socket. -/
inductive Deed
  | bind
  | drop (id : Nat)
  | run (now : Nat) (vault : Vault) (clients : List Protocol.Input)
  | shutdown

/-- The deed binds a socket first. -/
def Deed.Binds : Deed → Prop
  | bind | run .. => True
  | drop _ | shutdown => False

def Deed.action : Deed → AgentAction Unit
  | bind => do
    let _ ← Agent.bind
    return
  | drop id => dropListener id
  | run now vault clients => do
    let _ ← Agent.run now vault clients
    return
  | shutdown => Agent.shutdown

/-- What a run does between its bind and its end. -/
structure Service where
  now : Nat
  vault : Vault
  clients : List Protocol.Input

def Service.action (s : Service) : AgentAction Unit := do
  let _ ← serveClients s.now s.vault s.clients
  return

/-- What is left of a call. -/
inductive Task
  /-- A bind, and what is done after it, if it is that of a run. -/
  | bind (stage : Stage) (service? : Option Service)
  | serve (id : Nat) (service : Service)
  /-- The end of a run. -/
  | finish (id : Nat)
  | drop (id : Nat)
  | shutdown

def Deed.task : Deed → Task
  | bind => .bind .find none
  | drop id => .drop id
  | run now vault clients => .bind .find (some ⟨now, vault, clients⟩)
  | shutdown => .shutdown

namespace Task

/-- What comes after a step of a bind. -/
def afterStage (service? : Option Service) : Stage ⊕ Nat → Option Task
  | .inl stage => some (bind stage service?)
  | .inr id => service?.map (serve id)

/-- A step gives what is left after it. -/
def step : Task → AgentAction (Option Task)
  | bind stage service? => do return afterStage service? (← forSocket stage.step)
  | serve id service => do
    service.action
    return some (finish id)
  | finish id => do
    dropListener id
    return some shutdown
  | drop id => do
    dropListener id
    return none
  | shutdown => do
    Agent.shutdown
    return none

/-- All that is left. -/
def rest : Task → AgentAction Unit
  | bind stage service? => do
    let id ← forSocket stage.rest
    match service? with
    | none => return
    | some service =>
      service.action
      dropListener id
      Agent.shutdown
  | serve id service => do
    service.action
    dropListener id
    Agent.shutdown
  | finish id => do
    dropListener id
    Agent.shutdown
  | drop id => dropListener id
  | shutdown => Agent.shutdown

end Task

theorem forSocket_bind {α β : Type} (a : Path → Action BindFault Disk α)
    (f : Path → α → Action BindFault Disk β) :
    forSocket (fun p => a p >>= f p) = (do
      let x ← forSocket a
      forSocket fun p => f p x) := by
  funext w
  cases h : a w.agent.socket w.disk with
  | ok x d' =>
    rw [bind_of_ok (forSocket_eq_ok.2 ⟨d', h, rfl⟩)]
    simp only [forSocket, get_bind, onPart, bind_of_ok h]
  | error fault d' =>
    rw [bind_of_error (forSocket_eq_error.2 ⟨fault, d', h, rfl, rfl⟩)]
    exact forSocket_eq_error.2 ⟨fault, d', bind_of_error h, rfl, rfl⟩

/-- What is left is the next step, and what is left after it. -/
theorem Task.rest_eq (t : Task) : t.rest = (do
    match ← t.step with
    | none => return
    | some next => next.rest) := by
  cases t with
  | bind stage service? =>
    have hrest : forSocket stage.rest = (do
        match ← forSocket stage.step with
        | .inl next => forSocket next.rest
        | .inr id => return id) := by
      rw [show stage.rest = fun p => stage.step p >>= _ from funext stage.rest_eq, forSocket_bind]
      congr 1
      funext r
      cases r <;> rfl
    rw [rest, hrest, step]
    simp only [bind_assoc, pure_bind]
    congr 1
    funext r
    cases r with
    | inl next => rfl
    | inr id => cases service? <;> simp [afterStage, rest]
  | serve id service => simp [rest, step]
  | finish id => simp [rest, step]
  | drop id => simp [rest, step]
  | shutdown => simp [rest, step]

/-- All the steps of a call are what the agent runs. -/
theorem Deed.rest_task (deed : Deed) : deed.task.rest = deed.action := by
  cases deed with
  | bind => rfl
  | drop id => rfl
  | shutdown => rfl
  | run now vault clients =>
    simp only [task, Task.rest, action, Agent.run, Service.action, bind_assoc, pure_bind, bind_pure_unit]
    rfl

/-! ## What a step leaves -/

variable {p : Path} {d d' : Disk} {stage : Stage} {fault : BindFault} {e : AgentError}

theorem Service.action_eq_ok (s : Service) (w : World) : ∃ agent calls,
    s.action w = .ok () ⟨agent, w.disk, calls⟩ ∧ agent.socket = w.agent.socket := by
  obtain ⟨outputs, agent, calls, h, hsocket⟩ := serveClients_eq_ok s.now s.vault s.clients w
  exact ⟨agent, calls, bind_of_ok h, hsocket⟩

/-- The last step of a bind gives what is at the path its mode, and leaves everything else. -/
theorem node?_protectSocket (p : Path) (id : Nat) (h : d.node? place = some node) :
    ((protectSocket p id).after d).node? place = some node ∨ d.find p = .ok (place, node) ∧
      ((protectSocket p id).after d).node? place = some (node.withMode socketMode) := by
  cases hf : d.find p with
  | error e =>
    rw [after_of_error (protectSocket_of_error hf id)]
    exact .inl h
  | ok q =>
    obtain ⟨found, other⟩ := q
    rw [after_of_ok (protectSocket_of_find hf id)]
    by_cases hq : place = found
    · subst hq
      obtain ⟨g, -, -, hn⟩ := goal_of_find hf
      obtain rfl := Option.some.inj (h.symm.trans hn)
      exact .inr ⟨rfl, node?_put_self place _⟩
    · exact .inl (by simpa [put, hq] using h)

theorem nextSocket_protectSocket (p : Path) (id : Nat) (d : Disk) :
    ((protectSocket p id).after d).nextSocket = d.nextSocket := by
  cases hf : d.find p with
  | error e => rw [after_of_error (protectSocket_of_error hf id)]; rfl
  | ok q => rw [after_of_ok (protectSocket_of_find hf id)]; rfl

theorem Stage.grows_of_error (h : stage.step p d = .error fault d') :
    Grows d d' ∧ (fault = .taken ∨ fault = .notSocket → stage = .find ∨ stage = .ask) := by
  have hafter := stage.after_step p d
  rw [after_of_error h] at hafter
  cases stage with
  | find => exact ⟨hafter ▸ .refl d, fun _ => .inl rfl⟩
  | ask => exact ⟨hafter ▸ .refl d, fun _ => .inr rfl⟩
  | remove =>
    obtain ⟨e, hrun, rfl⟩ := onDisk_eq_error.1 (bind_pure_eq_error.1 h)
    exact ⟨failsClean_remove p d e d' hrun ▸ .refl d, by simp⟩
  | makeParents =>
    obtain ⟨e, hrun, rfl⟩ := onDisk_eq_error.1 (bind_pure_eq_error.1 h)
    exact ⟨hafter ▸ grows_makeParents d p, by simp⟩
  | listen =>
    obtain ⟨e, hrun, rfl⟩ := onDisk_eq_error.1 (bind_pure_eq_error.1 h)
    exact ⟨failsClean_listen p d e d' hrun ▸ .refl d, by simp⟩
  | protect id =>
    replace h := bind_pure_eq_error.1 h
    cases hf : d.find p with
    | ok q =>
      rw [protectSocket_of_find hf] at h
      cases h
    | error e =>
      rw [protectSocket_of_error hf] at h
      cases h
      exact ⟨⟨fun _ _ hn => hn, fun _ _ hn => .inr hn, rfl⟩, by simp⟩

namespace Task

variable {t : Task}

/-- The step looks, or asks. -/
def Looks : Task → Prop
  | bind .find _ | bind .ask _ => True
  | _ => False

/-- What is left after a step. -/
def next (t : Task) (w : World) : Option Task :=
  (t.step.outcome w).toOption.join

theorem after_bind (stage : Stage) (service? : Option Service) (w : World) :
    (bind stage service?).step.after w =
      { w with disk := (stage.step w.agent.socket).after w.disk } :=
  after_bind_pure.trans (after_forSocket _ w)

theorem after_serve (id : Nat) (service : Service) (w : World) : ∃ agent calls,
    (serve id service).step.after w = ⟨agent, w.disk, calls⟩ ∧ agent.socket = w.agent.socket := by
  obtain ⟨agent, calls, h, hsocket⟩ := service.action_eq_ok w
  exact ⟨agent, calls, after_bind_pure.trans (after_of_ok h), hsocket⟩

theorem after_shutdown (w : World) :
    shutdown.step.after w = { w with disk := (remove w.agent.socket).after w.disk } :=
  after_bind_pure.trans (after_of_ok (shutdown_eq w))

theorem disk_step (t : Task) (w : World) : (t.step.after w).disk =
    match t with
    | bind stage _ => (stage.step w.agent.socket).after w.disk
    | serve .. => w.disk
    | finish id | drop id => w.disk.close id
    | shutdown => (remove w.agent.socket).after w.disk := by
  cases t with
  | bind stage service? => rw [after_bind]
  | serve id service =>
    obtain ⟨agent, calls, h, -⟩ := after_serve id service w
    rw [h]
  | finish id | drop id => rfl
  | shutdown => rw [after_shutdown]

theorem socket_step (t : Task) (w : World) : (t.step.after w).agent.socket = w.agent.socket := by
  cases t with
  | bind stage service? => rw [after_bind]
  | serve id service =>
    obtain ⟨agent, calls, h, hsocket⟩ := after_serve id service w
    rw [h]
    exact hsocket
  | finish id | drop id => rfl
  | shutdown => rw [after_shutdown]

/-- To look and to ask changes nothing. -/
theorem after_of_looks (h : t.Looks) (w : World) : t.step.after w = w := by
  cases t with
  | bind stage service? =>
    rw [after_bind, Stage.after_step]
    cases stage with
    | find | ask => rfl
    | remove | makeParents | listen | protect id => cases h
  | serve id service | finish id | drop id | shutdown => cases h

/-- A step that fails takes nothing away and adds no more than directories, and no step is refused but
those that look and ask. -/
theorem grows_of_error (h : t.step w = .error e w') : Grows w.disk w'.disk ∧
    ∀ socket fault, e = .bind socket fault → fault = .taken ∨ fault = .notSocket → t.Looks := by
  cases t with
  | bind stage service? =>
    obtain ⟨fault, d', hrun, rfl, rfl⟩ := forSocket_eq_error.1 (bind_pure_eq_error.1 h)
    obtain ⟨hgrows, hrefused⟩ := Stage.grows_of_error hrun
    refine ⟨hgrows, fun socket fault' he hfault => ?_⟩
    cases he
    rcases hrefused hfault with rfl | rfl <;> trivial
  | serve id service =>
    obtain ⟨agent, calls, hs, -⟩ := service.action_eq_ok w
    rw [step, bind_of_ok hs] at h
    cases h
  | finish id | drop id => cases h
  | shutdown =>
    rw [step, bind_of_ok (shutdown_eq w)] at h
    cases h

end Task

end VaultAgent.Agent
