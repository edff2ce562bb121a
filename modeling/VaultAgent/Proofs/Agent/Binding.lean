import VaultAgent.Agent.Socket
import VaultAgent.Proofs.Disk.Directory
import VaultAgent.Proofs.Disk.Socket

/-!
# What a bind does to the disk

A bind looks and asks before it changes anything. It then takes away what is at the path at that time, adds
directories and a socket, and gives what is at the path its mode. It is refused only while it looks and
asks, and when it fails for another reason it leaves no more than directories
(`unchanged_of_error`).
-/

namespace VaultAgent.Agent

open VaultAgent.Action
open Disk

variable {d d' d₁ : Disk} {p : Path} {place : Place} {node : Node} {mode id : Nat} {u : Unit}
  {found : Bool} {fault : BindFault} {w : World}

theorem onDisk_eq_ok {α : Type} {a : DiskAction α} {x : α} :
    onDisk a d = .ok x d' ↔ a d = .ok x d' := by
  rw [onDisk, onPart_eq_ok]
  simp

theorem onDisk_eq_error {α : Type} {a : DiskAction α} :
    onDisk a d = .error fault d' ↔ ∃ e, a d = .error e d' ∧ fault = .system e := by
  rw [onDisk, onPart_eq_error]
  simp [eq_comm]

theorem after_onDisk {α : Type} (a : DiskAction α) (d : Disk) : (onDisk a).after d = a.after d := by
  cases h : a d with
  | ok x d' => rw [after_of_ok (onDisk_eq_ok.2 h), after_of_ok h]
  | error e d' => rw [after_of_error (onDisk_eq_error.2 ⟨e, h, rfl⟩), after_of_error h]

/-! ## Making room -/

theorem asks_findSocket (p : Path) : (findSocket p).Asks := by
  refine .bind .get fun d => ?_
  split
  · exact .pure _
  · exact .throw _
  · exact .pure _
  · exact .throw _

theorem asks_askSocket (p : Path) : (askSocket p).Asks := by
  refine .bind .get fun d => ?_
  split
  · exact .throw _
  · exact .pure _

theorem findSocket_of_socket (hf : d.find p = .ok (place, .socket mode id)) :
    findSocket p d = .ok true d := by
  rw [findSocket, get_bind, look_of_find hf]
  rfl

theorem findSocket_eq_true (h : findSocket p d = .ok true d') :
    ∃ place mode id, d.find p = .ok (place, .socket mode id) := by
  rw [findSocket, get_bind] at h
  cases hl : d.look p with
  | error e =>
    rw [hl] at h
    cases e <;> cases h
  | ok node =>
    obtain ⟨place, hf⟩ := find_of_look hl
    rw [hl] at h
    cases node with
    | directory => cases h
    | file mode content => cases h
    | socket mode id => exact ⟨place, mode, id, hf⟩

theorem askSocket_eq_ok (hf : d.find p = .ok (place, .socket mode id)) :
    askSocket p d = .ok u d ↔ ¬ (id ∈ d.listening ∧ d.Admits p place mode) := by
  rw [← connect_eq_ok_iff hf, askSocket, get_bind]
  cases hc : d.connect p with
  | ok n => exact iff_of_false nofun (not_not_intro ⟨n, rfl⟩)
  | error e => exact iff_of_true rfl nofun

theorem clearSocket_eq_ok (h : clearSocket p d = .ok u d') : d' = d ∨
    ∃ place node, d.Removes p place node ∧ d' = d.drop place := by
  obtain ⟨found, t, hfind, h⟩ := bind_eq_ok.1 h
  obtain rfl : t = d := (after_of_ok hfind).symm.trans (asks_findSocket p d)
  cases found with
  | false =>
    cases h
    exact .inl rfl
  | true =>
    rw [if_pos rfl] at h
    obtain ⟨v, t', hask, hremove⟩ := bind_eq_ok.1 h
    obtain rfl : t' = t := (after_of_ok hask).symm.trans (asks_askSocket p t)
    exact .inr (remove_eq_ok (onDisk_eq_ok.1 hremove))

theorem failsClean_onDisk {α : Type} {a : DiskAction α} (ha : a.FailsClean) :
    (onDisk a).FailsClean := by
  intro d fault d' h
  obtain ⟨e, hr, -⟩ := onDisk_eq_error.1 h
  exact ha d e d' hr

theorem failsClean_clearSocket (p : Path) : (clearSocket p).FailsClean := by
  refine .bind (asks_findSocket p) fun found => ?_
  split
  · exact .bind (asks_askSocket p) fun _ => failsClean_onDisk (failsClean_remove p)
  · exact (Asks.pure _).failsClean

/-! ## Opening a socket -/

theorem protectSocket_of_find (hf : d.find p = .ok (place, node)) (id : Nat) :
    protectSocket p id d = .ok () (d.put place (node.withMode socketMode)) := by
  rw [protectSocket, bind_of_ok (attempt_of_ok (setMode_of_find hf))]
  rfl

theorem protectSocket_of_error {e : OsError} (hf : d.find p = .error e) (id : Nat) :
    protectSocket p id d = .error (.system e) (d.close id) := by
  rw [protectSocket, bind_of_ok (attempt_of_error (setMode_of_error hf))]
  rfl

/-- The disk with a new socket at a place. -/
def withSocket (d : Disk) (place : Place) (mode : Nat) : Disk :=
  (d.put place (.socket mode d.nextSocket)).heard

theorem find_withSocket (h : d.EndsAt p place) (hn : d.node? place = none) :
    (withSocket d place mode).find p = .ok (place, .socket mode d.nextSocket) := by
  have hsame : SameDirectories d (withSocket d place mode) := SameDirectories.put (by simp [hn]) nofun
  exact (h.congr hsame).find (node?_put_self place _) nofun

/-- Opening a socket fails only for the system's reasons, and leaves no more than directories. -/
theorem openSocket_eq_error (h : openSocket p d = .error fault d') :
    (∃ e, fault = .system e) ∧
      ∀ place node, d'.node? place = some node → node = .directory ∨ d.node? place = some node := by
  have hgrows := grows_makeParents d p
  rcases bind_eq_error.1 h with h | ⟨v, d₁, hmake, h⟩
  · obtain ⟨e, hmake, rfl⟩ := onDisk_eq_error.1 h
    rw [after_of_error hmake] at hgrows
    exact ⟨⟨e, rfl⟩, hgrows.adds⟩
  rw [after_of_ok (onDisk_eq_ok.1 hmake)] at hgrows
  rcases bind_eq_error.1 h with h | ⟨n, d₂, hlisten, h⟩
  · obtain ⟨e, hlisten, rfl⟩ := onDisk_eq_error.1 h
    obtain rfl := failsClean_listen p d₁ e d' hlisten
    exact ⟨⟨e, rfl⟩, hgrows.adds⟩
  obtain ⟨rfl, ⟨hempty, rfl⟩ | ⟨place, hends, hn, rfl⟩⟩ := listen_eq_ok (onDisk_eq_ok.1 hlisten)
  · -- What listens under an empty path is at no place, so there is no mode to change.
    obtain ⟨e, he⟩ := find_of_isEmpty (d := d₁.heard) hempty
    rw [bind_of_error (protectSocket_of_error he _)] at h
    cases h
    exact ⟨⟨e, rfl⟩, hgrows.adds⟩
  · have hf : (d₁.put place (.socket (newMode 0o777) d₁.nextSocket)).heard.find p =
        .ok (place, .socket (newMode 0o777) d₁.nextSocket) := find_withSocket hends hn
    rw [bind_of_ok (protectSocket_of_find hf _)] at h
    cases h

/-- A bind that is refused for what is at the path has changed nothing, and one that fails for another
reason has added no more than directories. -/
theorem unchanged_of_error (h : bindSocket p d = .error fault d') :
    (fault = .taken ∨ fault = .notSocket → d' = d) ∧
      ∀ place node, d'.node? place = some node → node = .directory ∨ d.node? place = some node := by
  rcases bind_eq_error.1 h with h | ⟨u, d₁, hclear, h⟩
  · obtain rfl := failsClean_clearSocket p d fault d' h
    exact ⟨fun _ => rfl, fun place node hn => .inr hn⟩
  · obtain ⟨⟨e, rfl⟩, hadds⟩ := openSocket_eq_error h
    refine ⟨by simp, fun place node hn => (hadds place node hn).imp_right fun hn => ?_⟩
    rcases clearSocket_eq_ok hclear with rfl | ⟨cleared, gone, -, rfl⟩
    · exact hn
    · by_cases hq : place = cleared
      · simp [drop, hq] at hn
      · simpa [drop, hq] using hn

/-! ## The world after it -/

theorem forSocket_eq_ok {α : Type} {a : Path → Action BindFault Disk α} {x : α} {w' : World} :
    forSocket a w = .ok x w' ↔ ∃ d', a w.agent.socket w.disk = .ok x d' ∧ w' = { w with disk := d' } := by
  rw [forSocket, get_bind, onPart_eq_ok]
  simp only [eq_comm]

theorem forSocket_eq_error {α : Type} {a : Path → Action BindFault Disk α} {e : AgentError} {w' : World} :
    forSocket a w = .error e w' ↔ ∃ fault d', a w.agent.socket w.disk = .error fault d' ∧
      e = .bind w.agent.socket fault ∧ w' = { w with disk := d' } := by
  rw [forSocket, get_bind, onPart_eq_error]
  simp only [eq_comm]

theorem after_forSocket {α : Type} (a : Path → Action BindFault Disk α) (w : World) :
    (forSocket a).after w = { w with disk := (a w.agent.socket).after w.disk } := by
  cases h : a w.agent.socket w.disk with
  | ok x d' => rw [after_of_ok (forSocket_eq_ok.2 ⟨d', h, rfl⟩), after_of_ok h]
  | error fault d' => rw [after_of_error (forSocket_eq_error.2 ⟨fault, d', h, rfl, rfl⟩), after_of_error h]

theorem shutdown_eq (w : World) :
    shutdown w = .ok () { w with disk := (remove w.agent.socket).after w.disk } := by
  rw [shutdown, get_bind, modify_apply, after]
  cases remove w.agent.socket w.disk <;> rfl

/-- Clients are served without a failure, and have no way to the disk. -/
theorem serveClients_eq_ok (now : Nat) (vault : Vault) (clients : List Protocol.Input) (w : World) :
    ∃ outputs agent calls, serveClients now vault clients w = .ok outputs ⟨agent, w.disk, calls⟩ ∧
      agent.socket = w.agent.socket := by
  induction clients generalizing w with
  | nil => exact ⟨[], w.agent, w.calls, rfl, rfl⟩
  | cons input rest ih =>
    obtain ⟨outputs, agent, calls, hrest, hsocket⟩ := ih ((serveClient now vault input).after w)
    let served := Protocol.serve now vault input ⟨w.agent.keyring, w.calls⟩
    have hfirst : serveClient now vault input w =
      .ok (served.output, served.ending) ((serveClient now vault input).after w) := rfl
    refine ⟨served.output :: outputs, agent, calls, ?_, hsocket⟩
    rw [serveClients, bind_of_ok hfirst]
    exact bind_of_ok hrest

end VaultAgent.Agent
