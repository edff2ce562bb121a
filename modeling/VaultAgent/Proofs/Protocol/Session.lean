import VaultAgent.Proofs.Keyring
import VaultAgent.Proofs.Protocol.Requests

/-!
# What a client can do to the keyring

A client takes entries away and adds none. A request takes away the slots of the key that it names,
or all of them, or none (`keeps_respond`); so what a connection leaves are the slots whose keys are
`Spared` by all requests that it decodes (`Decodes.keeps`), whatever the vault answers.
-/

namespace VaultAgent.Protocol

open Keyring (Keeps)
open Ssh (PublicKey)

variable {now : Nat} {clock : Nat → Nat} {vault : Vault} {course : Course} {input : Input}
  {r : Request} {requests : List Request} {e : Ending} {s : Session} {key : PublicKey}

/-- No request takes the key out of the keyring. -/
def Spared (requests : List Request) (key : PublicKey) : Prop :=
  .removeAll ∉ requests ∧ .remove key ∉ requests

instance (requests : List Request) (key : PublicKey) : Decidable (Spared requests key) :=
  inferInstanceAs (Decidable (_ ∧ _))

theorem spared_nil : Spared [] key :=
  ⟨List.not_mem_nil, List.not_mem_nil⟩

theorem spared_append {later : List Request} :
    Spared (requests ++ later) key ↔ Spared requests key ∧ Spared later key := by
  simp only [Spared, List.mem_append, not_or]
  exact and_and_and_comm

theorem spared_singleton : Spared [r] key ↔ r ≠ .removeAll ∧ r ≠ .remove key := by
  simp only [Spared, List.mem_singleton, ne_eq, eq_comm]

namespace Session

theorem keeps_respond (now : Nat) (vault : Vault) (h : s.keyring.Indexed)
    (hw : s.keyring.poisoned = false) (r : Request) :
    s.keyring.Keeps (s.respond now vault r).2.keyring fun slot => Spared [r] slot.entry.key := by
  simp only [spared_singleton]
  cases r with
  | identities =>
    rw [respond]
    cases s.keyring.identities now <;> exact (Keeps.self _).congr fun _ => by simp
  | sign key data flags =>
    rw [respond]
    cases s.keyring.sign now vault key data flags s.calls <;>
      exact (Keeps.self _).congr fun _ => by simp
  | remove key =>
    obtain ⟨b, k', hr, hk⟩ := h.remove hw key
    rw [respond, change, hr]
    exact hk.congr fun slot => by simp [eq_comm]
  | removeAll =>
    obtain ⟨n, k', hr, hk⟩ := Keyring.removeAll_eq_ok now hw
    rw [respond, change, hr]
    exact hk.congr fun slot => by simp
  | _ => exact (Keeps.self _).congr fun _ => by simp

theorem keeps_respondAll (clock : Nat → Nat) (vault : Vault) (h : s.keyring.Indexed)
    (hw : s.keyring.poisoned = false) (requests : List Request) :
    s.keyring.Keeps (s.respondAll vault clock requests).2.keyring
      fun slot => Spared requests slot.entry.key := by
  induction requests generalizing clock s with
  | nil => exact (Keeps.self _).congr fun _ => (iff_of_true spared_nil trivial).symm
  | cons r requests ih =>
    have hr := keeps_respond (clock 0) vault h hw r
    have hrest := ih (fun i => clock (i + 1)) (hr.indexed h) (hr.poisoned.trans hw)
    refine (hr.trans hrest).congr fun slot => ?_
    show _ ↔ Spared ([r] ++ requests) _
    rw [spared_append]

end Session

/-- A connection leaves the slots whose keys are spared by what it decodes. -/
theorem Decodes.keeps (hd : Decodes course.sends [] input requests e) (h : s.keyring.Indexed)
    (hw : s.keyring.poisoned = false) :
    s.keyring.Keeps (serveAlong course vault input s).session.keyring
      fun slot => Spared requests slot.entry.key := by
  rw [(serveAlong_of_decodes hd vault s).2.1]
  exact Session.keeps_respondAll course.clock vault h hw requests

/-- A client adds nothing to the keyring. -/
theorem keeps_serve (now : Nat) (vault : Vault) (h : s.keyring.Steady) (input : Input) :
    ∃ p, s.keyring.Keeps (serve now vault input s).session.keyring p := by
  obtain ⟨requests, e, hd⟩ := exists_decodes (Course.prompt now).sends [] input
  exact ⟨_, hd.keeps h.isIndexed h.whole⟩

end VaultAgent.Protocol
