import VaultAgent.Proofs.Agent.Steps
import Mathlib.Logic.Function.Basic

/-!
# Calls that take turns

On a `Host` any number of calls on any number of agents are under way, and between two steps of one of
them the others take theirs and other programs change the disk. A step `Spares` what is there if it takes
nothing away but, in a bind, a socket that nobody listens on, and, in a shutdown, a socket that the agent
has bound itself. A bind removes what is at its path by then, and a shutdown whatever is at its path: that
is how a step `Harms`, and there is no other way (`Host.spares_iff`). Which agent bound which socket is
kept track of by their numbers, of which no two are the same (`Host.Owned`).
-/

namespace VaultAgent.Agent

open VaultAgent.Action
open Disk

namespace Task

/-- The number of the socket that the step binds, if it binds one. -/
def binds (w : World) : Task → List Nat
  | bind .listen _ => ((listen w.agent.socket).outcome w.disk).toOption.toList
  | _ => []

end Task

structure Host where
  disk : Disk
  agents : Nat → Agent
  calls : List VaultCall
  /-- The sockets that each agent has bound. -/
  bound : Nat → List Nat
  /-- The calls under way: the agent of each, and what is left of it. -/
  tasks : Nat → Option (Nat × Task)

inductive HostEvent
  /-- A call on an agent. One that was under way in its place is given up. -/
  | begins (i agent : Nat) (deed : Deed)
  /-- The next step of a call. -/
  | goesOn (i : Nat)
  /-- Other programs leave this disk. The numbers that sockets have had are not given again. -/
  | others (disk : Disk)

namespace Host

variable {h : Host} {a b i id : Nat} {t : Task} {deed : Deed} {place : Place} {node : Node}

/-- Agents none of which has bound anything. -/
def start (agents : Nat → Agent) (disk : Disk) (calls : List VaultCall) : Host where
  disk := disk
  agents := agents
  calls := calls
  bound _ := []
  tasks _ := none

def world (h : Host) (a : Nat) : World :=
  ⟨h.agents a, h.disk, h.calls⟩

def socket (h : Host) (a : Nat) : Path :=
  (h.agents a).socket

def begins (h : Host) (i a : Nat) (deed : Deed) : Host :=
  { h with tasks := Function.update h.tasks i (some (a, deed.task)) }

def goesOn (h : Host) (i : Nat) : Host :=
  match h.tasks i with
  | none => h
  | some (a, t) =>
    { disk := (t.step.after (h.world a)).disk
      agents := Function.update h.agents a (t.step.after (h.world a)).agent
      calls := (t.step.after (h.world a)).calls
      bound := Function.update h.bound a (t.binds (h.world a) ++ h.bound a)
      tasks := Function.update h.tasks i ((t.next (h.world a)).map (a, ·)) }

def afterOthers (h : Host) (disk : Disk) : Host :=
  { h with disk := { disk with nextSocket := max h.disk.nextSocket disk.nextSocket } }

/-- Something is so for each step, on the host as it is then. -/
def Throughout (P : Host → Nat → Task → Prop) : Host → List HostEvent → Prop
  | _, [] => True
  | h, .begins i a deed :: rest => Throughout P (h.begins i a deed) rest
  | h, .goesOn i :: rest => (∀ task ∈ h.tasks i, P h task.1 task.2) ∧ Throughout P (h.goesOn i) rest
  | h, .others disk :: rest => Throughout P (h.afterOthers disk) rest

/-- What a step of an agent may take away: a socket that nobody listens on or, for a shutdown, one that
the agent has bound and no other agent has. -/
def MayTake (h : Host) (a : Nat) (node : Node) : Task → Prop
  | .bind .remove _ => ∃ id ∈ node.socket?, id ∉ h.disk.listening
  | .shutdown => ∃ id ∈ node.socket?, id ∈ h.bound a ∧ ∀ b, id ∈ h.bound b → b = a
  | _ => False

/-- Whatever is there before the step is there after it, unless it is at the agent's path and the step may
take it away, or is the last of a bind and changes the mode. -/
def Spares (h : Host) (a : Nat) (t : Task) : Prop :=
  ∀ place node, h.disk.node? place = some node →
    (t.step.after (h.world a)).disk.node? place = some node ∨
    h.disk.find (h.socket a) = .ok (place, node) ∧ (h.MayTake a node t ∨
      (∃ id service?, t = .bind (.protect id) service?) ∧
        (t.step.after (h.world a)).disk.node? place = some (node.withMode socketMode))

/-- A bind does harm if what it removes is no socket, or if somebody listens on it. A shutdown does harm if
what it removes is no socket that the agent has bound. -/
def Harms (h : Host) (a : Nat) : Task → Prop
  | .bind .remove _ => ∃ place node, h.disk.Removes (h.socket a) place node ∧
    ∀ id ∈ node.socket?, id ∈ h.disk.listening
  | .shutdown => ∃ place node, h.disk.Removes (h.socket a) place node ∧
    ∀ id ∈ node.socket?, id ∉ h.bound a
  | _ => False

instance (d : Disk) (p : Path) (c : Place → Node → Prop) [∀ place node, Decidable (c place node)] :
    Decidable (∃ place node, d.Removes p place node ∧ c place node) :=
  decidable_of_iff (∃ q ∈ (d.find p).toOption,
      (q.2 ≠ .directory ∧ d.fault? (.remove q.1) = none) ∧ c q.1 q.2) <| by
    constructor
    · rintro ⟨⟨place, node⟩, hq, ⟨hn, hfault⟩, hc⟩
      refine ⟨place, node, ⟨?_, hn, hfault⟩, hc⟩
      cases hf : d.find p with
      | error e => simp [hf, Except.toOption] at hq
      | ok q' =>
        rw [hf] at hq
        cases hq
        rfl
    · rintro ⟨place, node, ⟨hf, hn, hfault⟩, hc⟩
      exact ⟨(place, node), by rw [hf]; rfl, ⟨hn, hfault⟩, hc⟩

instance (h : Host) (a : Nat) (t : Task) : Decidable (h.Harms a t) :=
  match t with
  | .bind .remove _ | .shutdown => inferInstanceAs (Decidable (∃ _ _, _ ∧ _))
  | .bind .find _ | .bind .ask _ | .bind .makeParents _ | .bind .listen _ | .bind (.protect _) _
  | .serve .. | .finish _ | .drop _ => inferInstanceAs (Decidable False)

instance throughoutDecidable (P : Host → Nat → Task → Prop) [∀ h a t, Decidable (P h a t)] :
    (h : Host) → (events : List HostEvent) → Decidable (Throughout P h events)
  | _, [] => inferInstanceAs (Decidable True)
  | h, .begins i a deed :: rest => throughoutDecidable P (h.begins i a deed) rest
  | h, .goesOn i :: rest =>
    have := throughoutDecidable P (h.goesOn i) rest
    inferInstanceAs (Decidable (_ ∧ _))
  | h, .others disk :: rest => throughoutDecidable P (h.afterOthers disk) rest

/-! ## What a step changes on the host -/

@[simp] theorem disk_world (h : Host) (a : Nat) : (h.world a).disk = h.disk := rfl

@[simp] theorem socket_world (h : Host) (a : Nat) : (h.world a).agent.socket = h.socket a := rfl

theorem goesOn_of_none (ht : h.tasks i = none) : h.goesOn i = h := by
  rw [goesOn, ht]

theorem world_goesOn (ht : h.tasks i = some (a, t)) :
    (h.goesOn i).world a = t.step.after (h.world a) := by
  simp [goesOn, ht, world]

theorem disk_goesOn (ht : h.tasks i = some (a, t)) :
    (h.goesOn i).disk = (t.step.after (h.world a)).disk := by
  simp [goesOn, ht]

theorem socket_goesOn (ht : h.tasks i = some (a, t)) : (h.goesOn i).socket a = h.socket a := by
  show ((h.goesOn i).world a).agent.socket = _
  rw [world_goesOn ht, t.socket_step]
  rfl

theorem tasks_goesOn (ht : h.tasks i = some (a, t)) :
    (h.goesOn i).tasks i = (t.next (h.world a)).map (a, ·) := by
  simp [goesOn, ht]

theorem mem_bound_goesOn (ht : h.tasks i = some (a, t)) :
    id ∈ (h.goesOn i).bound b ↔ b = a ∧ id ∈ t.binds (h.world a) ∨ id ∈ h.bound b := by
  by_cases hb : b = a
  · subst hb
    simp [goesOn, ht]
  · simp [goesOn, ht, hb]

/-! ## Who has bound what -/

/-- The numbers of bound sockets have been given, and each to one agent. -/
structure Owned (h : Host) : Prop where
  given : ∀ a, ∀ id ∈ h.bound a, id < h.disk.nextSocket
  single : ∀ a b id, id ∈ h.bound a → id ∈ h.bound b → a = b

theorem nextSocket_listen (p : Path) (d : Disk) : d.nextSocket ≤ ((listen p).after d).nextSocket ∧
    ∀ id ∈ ((listen p).outcome d).toOption, id = d.nextSocket ∧ id < ((listen p).after d).nextSocket := by
  cases hl : listen p d with
  | error e d' =>
    obtain rfl := failsClean_listen p d e d' hl
    rw [after_of_error hl, outcome_of_error hl]
    exact ⟨Nat.le_refl _, nofun⟩
  | ok n d' =>
    obtain ⟨rfl, hd⟩ := listen_eq_ok hl
    have hnext : d'.nextSocket = d.nextSocket + 1 := by
      rcases hd with ⟨-, rfl⟩ | ⟨place, -, -, rfl⟩ <;> rfl
    rw [after_of_ok hl, outcome_of_ok hl, hnext]
    refine ⟨Nat.le_succ _, fun id hid => ?_⟩
    cases hid
    exact ⟨rfl, Nat.lt_succ_self _⟩

theorem fresh_of_step (t : Task) (w : World) : w.disk.nextSocket ≤ (t.step.after w).disk.nextSocket ∧
    ∀ id ∈ t.binds w, id = w.disk.nextSocket ∧ id < (t.step.after w).disk.nextSocket := by
  rw [t.disk_step]
  cases t with
  | bind stage service? =>
    dsimp only
    rw [stage.after_step]
    cases stage with
    | find | ask => exact ⟨Nat.le_refl _, nofun⟩
    | remove => exact ⟨Nat.le_of_eq (nextSocket_remove _ _).symm, nofun⟩
    | makeParents => exact ⟨Nat.le_of_eq (sockets_makeParents _ _).2.symm, nofun⟩
    | listen =>
      obtain ⟨hle, hid⟩ := nextSocket_listen w.agent.socket w.disk
      exact ⟨hle, fun id h => hid id (Option.mem_toList.1 h)⟩
    | protect id => exact ⟨Nat.le_of_eq (nextSocket_protectSocket _ _ _).symm, nofun⟩
  | serve id service | finish id | drop id => exact ⟨Nat.le_refl _, nofun⟩
  | shutdown => exact ⟨Nat.le_of_eq (nextSocket_remove _ _).symm, nofun⟩

namespace Owned

theorem start (agents : Nat → Agent) (disk : Disk) (calls : List VaultCall) :
    (Host.start agents disk calls).Owned :=
  ⟨nofun, nofun⟩

theorem goesOn (ho : h.Owned) (i : Nat) : (h.goesOn i).Owned := by
  cases ht : h.tasks i with
  | none => rwa [goesOn_of_none ht]
  | some task =>
    obtain ⟨a, t⟩ := task
    obtain ⟨hle, hfresh⟩ := fresh_of_step t (h.world a)
    rw [← disk_goesOn ht] at hle hfresh
    have hnew (b id : Nat) (hid : id ∈ t.binds (h.world a)) : id ∉ h.bound b := by
      intro hold
      have hlt := ho.given b id hold
      rw [(hfresh id hid).1] at hlt
      exact Nat.lt_irrefl _ hlt
    refine ⟨fun b id hid => ?_, fun b c id hb hc => ?_⟩
    · rcases (mem_bound_goesOn ht).1 hid with ⟨-, hid⟩ | hid
      · exact (hfresh id hid).2
      · exact Nat.lt_of_lt_of_le (ho.given b id hid) hle
    · rcases (mem_bound_goesOn ht).1 hb with ⟨rfl, hb'⟩ | hb' <;>
        rcases (mem_bound_goesOn ht).1 hc with ⟨rfl, hc'⟩ | hc'
      · rfl
      · exact absurd hc' (hnew c id hb')
      · exact absurd hb' (hnew b id hc')
      · exact ho.single b c id hb' hc'

theorem begins (ho : h.Owned) (i a : Nat) (deed : Deed) : (h.begins i a deed).Owned :=
  ⟨ho.given, ho.single⟩

theorem afterOthers (ho : h.Owned) (disk : Disk) : (h.afterOthers disk).Owned :=
  ⟨fun a id hid => Nat.lt_of_lt_of_le (ho.given a id hid) (Nat.le_max_left ..), ho.single⟩

end Owned

/-! ## One step -/

/-- A step that keeps everything spares it. -/
theorem spares_of_keeps (hkeeps : ∀ place node, h.disk.node? place = some node →
    (t.step.after (h.world a)).disk.node? place = some node) : h.Spares a t :=
  fun place node hn => .inl (hkeeps place node hn)

theorem spares_iff_of_remove {may : Node → Prop}
    (hdisk : (t.step.after (h.world a)).disk = (remove (h.socket a)).after h.disk)
    (hmay : ∀ node, h.MayTake a node t ↔ may node)
    (hnot : ∀ id service?, t ≠ .bind (.protect id) service?) :
    h.Spares a t ↔ ¬ ∃ place node, h.disk.Removes (h.socket a) place node ∧ ¬ may node := by
  rw [← spares_remove, Spares, hdisk]
  refine forall_congr' fun place => forall_congr' fun node => imp_congr_right fun _ => ?_
  refine or_congr_right (and_congr_right fun _ => ?_)
  rw [hmay, or_iff_left]
  rintro ⟨⟨id, service?, ht⟩, -⟩
  exact hnot id service? ht

theorem spares_remove_iff {service? : Option Service} :
    h.Spares a (.bind .remove service?) ↔ ¬ h.Harms a (.bind .remove service?) := by
  have hdisk : ((Task.bind .remove service?).step.after (h.world a)).disk =
      (remove (h.socket a)).after h.disk := by
    rw [Task.disk_step]
    exact Stage.after_step _ _ _
  have hmay : ∀ node, h.MayTake a node (.bind .remove service?) ↔
      ∃ id ∈ node.socket?, id ∉ h.disk.listening := fun node => Iff.rfl
  rw [spares_iff_of_remove hdisk hmay nofun, Harms]
  refine not_congr (exists_congr fun place => exists_congr fun node => and_congr_right fun _ => ?_)
  simp only [not_exists, not_and, not_not]

theorem spares_shutdown_iff (ho : h.Owned) : h.Spares a .shutdown ↔ ¬ h.Harms a .shutdown := by
  have hmay : ∀ node, h.MayTake a node .shutdown ↔ ∃ id ∈ node.socket?, id ∈ h.bound a := by
    intro node
    refine exists_congr fun id => and_congr_right fun _ => and_iff_left_of_imp ?_
    exact fun hid b hb => ho.single b a id hb hid
  rw [spares_iff_of_remove (Task.disk_step _ _) hmay nofun, Harms]
  refine not_congr (exists_congr fun place => exists_congr fun node => and_congr_right fun _ => ?_)
  simp only [not_exists, not_and]

theorem spares_iff (ho : h.Owned) : h.Spares a t ↔ ¬ h.Harms a t := by
  have hdisk := t.disk_step (h.world a)
  simp only [disk_world, socket_world] at hdisk
  cases t with
  | bind stage service? =>
    replace hdisk := hdisk.trans (stage.after_step (h.socket a) h.disk)
    cases stage with
    | remove => exact spares_remove_iff
    | find | ask =>
      refine iff_of_true (spares_of_keeps fun place node hn => ?_) id
      rw [hdisk]
      exact hn
    | makeParents =>
      refine iff_of_true (spares_of_keeps fun place node hn => ?_) id
      dsimp only at hdisk
      rw [hdisk]
      exact (grows_makeParents h.disk (h.socket a)).keeps place node hn
    | listen =>
      refine iff_of_true (spares_of_keeps fun place node hn => ?_) id
      dsimp only at hdisk
      rw [hdisk]
      exact listen_keeps (h.socket a) hn
    | protect id =>
      refine iff_of_true (fun place node hn => ?_) (fun hh => hh)
      dsimp only at hdisk
      rw [hdisk]
      refine (node?_protectSocket (h.socket a) id hn).imp_right fun hq => ⟨hq.1, .inr ⟨?_, hq.2⟩⟩
      exact ⟨id, service?, rfl⟩
  | serve id service | finish id | drop id =>
    refine iff_of_true (spares_of_keeps fun place node hn => ?_) (fun hh => hh)
    rw [hdisk]
    exact hn
  | shutdown => exact spares_shutdown_iff ho

theorem throughout_iff (ho : h.Owned) (events : List HostEvent) :
    Throughout Spares h events ↔ Throughout (fun h a t => ¬ h.Harms a t) h events := by
  induction events generalizing h with
  | nil => exact Iff.rfl
  | cons e rest ih =>
    cases e with
    | begins i a deed => exact ih (ho.begins i a deed)
    | goesOn i =>
      refine and_congr ?_ (ih (ho.goesOn i))
      exact forall_congr' fun task => imp_congr_right fun _ => spares_iff ho
    | others disk => exact ih (ho.afterOthers disk)

end Host

end VaultAgent.Agent
