import VaultAgent.Agent.Socket
import VaultAgent.Proofs.Agent.Import
import VaultAgent.Proofs.Agent.Removal
import VaultAgent.Proofs.Protocol.Session

/-!
# The life of an agent

An agent begins with an empty keyring. What happens then are calls of its own operations, clients, and
whatever other programs do to the disk, in any order (`Reached`). Through all of it the keyring stays
steady: calls add entries that never expire and find them by their keys, and clients only take away.
-/

namespace VaultAgent.Agent

open VaultAgent.Action

/-- A call of one of the agent's operations. -/
inductive Call
  | load
  | importKey (vault : Vault) (name : String)
  | remove (name : String)

inductive Event
  | call (now : Nat) (call : Call)
  | client (now : Nat) (vault : Vault) (input : Protocol.Input)
  /-- Other programs change the disk. -/
  | rewrite (disk : Disk)

/-- The world after a call, whether it succeeds or fails. -/
def Call.after (now : Nat) (w : World) : Call → World
  | load => (serveStore now).after w
  | importKey vault name => (importSecret now vault name).after w
  | remove name => (removeSecret name).after w

def Event.after (w : World) : Event → World
  | call now c => c.after now w
  | client now vault input => (serveClient now vault input).after w
  | rewrite disk => { w with disk }

/-- The world can come about from an agent with an empty keyring. -/
inductive Reached : World → Prop
  | start (store : Store) (socket : Path) (timeout : Duration) (disk : Disk)
    (calls : List VaultCall) : Reached ⟨⟨store, .empty, socket, timeout⟩, disk, calls⟩
  | step {w : World} (e : Event) (h : Reached w) : Reached (e.after w)

/-! ## The keyring stays steady -/

/-- The keyring of the agent is steady. -/
def KeyringSteady (w : World) : Prop :=
  w.agent.keyring.Steady

variable {α : Type} {now : Nat}

theorem preserves_onStore (a : Store.StoreAction α) : (onStore a).Preserves KeyringSteady := by
  intro w h
  unfold after onStore onPart
  cases a (w.agent.store, w.disk) <;> exact h

theorem preserves_ofStore (ask : Store → Except StoreError α) :
    (ofStore ask).Preserves KeyringSteady :=
  (asks_ofStore ask).preserves _

theorem preserves_onKeyring {a : Keyring.KeyringAction α} (ha : a.Preserves Keyring.Steady) :
    (onKeyring a).Preserves KeyringSteady := by
  intro w h
  have hk := ha _ h
  unfold after at hk
  unfold after onKeyring onPart
  cases hr : a w.agent.keyring <;> rw [hr] at hk <;> exact hk

theorem preserves_serveSecret (secret : Secret) :
    (serveSecret now secret).Preserves KeyringSteady := by
  have hadd (timeout : Duration) (key : Ssh.PublicKey) :
      (Keyring.add now (entryFor timeout secret key)).Preserves Keyring.Steady := fun k h => by
    obtain ⟨b, ha⟩ := h.add (e := entryFor timeout secret key) now rfl
    rw [after_of_ok ha]
    exact h.withEntry _
  refine .bind (Asks.preserves (.ofExcept _ _) _) fun key => ?_
  refine .bind (Asks.preserves .get _) fun w => ?_
  exact .bind (preserves_onKeyring (hadd _ _)) fun _ => Asks.preserves (.pure _) _

theorem preserves_serveSecrets (all : List Secret) :
    (serveSecrets now all).Preserves KeyringSteady := by
  induction all with
  | nil => exact Asks.preserves (.pure _) _
  | cons secret rest ih => exact .bind (preserves_serveSecret secret) fun _ => ih

theorem preserves_serveStore : (serveStore now).Preserves KeyringSteady := by
  refine .bind (.bind (preserves_onStore _) fun _ => preserves_ofStore _) fun all => ?_
  exact .bind (preserves_serveSecrets all) fun _ => Asks.preserves (.pure _) _

theorem preserves_importSecret (vault : Vault) (name : String) :
    (importSecret now vault name).Preserves KeyringSteady := by
  refine .bind (fun w h => ?_) fun secret => ?_
  · rw [after_exportedSecret]
    exact h
  refine .bind (preserves_onStore _) fun _ => .bind (preserves_onStore _) fun _ => ?_
  refine .bind (.attempt (.bind (preserves_ofStore _) fun stored => ?_)) fun r => ?_
  · exact .bind (preserves_serveSecret stored) fun _ => Asks.preserves (.pure _) _
  · cases r with
    | ok stored => exact Asks.preserves (.pure _) _
    | error e => exact .bind (preserves_onStore _) fun _ => Asks.preserves (.throw _) _

theorem preserves_removeSecret (name : String) :
    (removeSecret name).Preserves KeyringSteady := by
  refine .bind (preserves_onStore _) fun _ => .bind (preserves_onStore _) fun removed => ?_
  refine .bind (fun w h => ?_) fun _ => Asks.preserves (.pure _) _
  obtain ⟨k, hd, hkeep⟩ := dropKeys_of_indexed h.isIndexed h.whole removed.toList
  rw [after_of_ok hd]
  exact hkeep.steady h

theorem steady_call {w : World} (h : w.agent.keyring.Steady) (c : Call) :
    (c.after now w).agent.keyring.Steady := by
  cases c with
  | load => exact preserves_serveStore w h
  | importKey vault name => exact preserves_importSecret vault name w h
  | remove name => exact preserves_removeSecret name w h

/-- In every world that can come about the keyring is steady. -/
theorem Reached.steady {w : World} (h : Reached w) : w.agent.keyring.Steady := by
  induction h with
  | start => exact .empty
  | @step w e h ih =>
    cases e with
    | call now c => exact steady_call ih c
    | client now vault input =>
      obtain ⟨p, hp⟩ := Protocol.keeps_serve now vault
        (s := ⟨w.agent.keyring, w.calls⟩) ih input
      exact hp.steady ih
    | rewrite disk => exact ih

/-! ## Records with keys -/

/-- A root with an Ed25519 key, all of whose bytes are 1. -/
def onesRecord : Store.Record :=
  ⟨"f", "c", "ed25519", "c3NoLWVkMjU1MTkgQUFBQUMzTnphQzFsWkRJMU5URTVBQUFBSUFFQkFRRUJBUUVCQVFFQkFRRUJBUUVC" ++
    "QVFFQkFRRUJBUUVCQVFFQkFRRUI=", ""⟩

/-- A root with an Ed25519 key, all of whose bytes are 2. -/
def twosRecord : Store.Record :=
  ⟨"f", "c", "ed25519", "c3NoLWVkMjU1MTkgQUFBQUMzTnphQzFsWkRJMU5URTVBQUFBSUFJQ0FnSUNBZ0lDQWdJQ0FnSUNBZ0lD" ++
    "QWdJQ0FnSUNBZ0lDQWdJQ0FnSUM=", ""⟩

end VaultAgent.Agent
