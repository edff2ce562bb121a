import VaultAgent.Proofs.Agent.Serving

/-!
# What a removal takes away

A removal takes the records that depend on the name out of the store, and their keys out of the keyring:
the entries that go are those whose key is read from a record that is removed (`removeSecret_eq_ok`).
-/

namespace VaultAgent.Agent

open VaultAgent.Action
open Ssh (PublicKey)

variable {w w' w'' : World} {m removed : Store.Records} {name : String} {names : List String}
  {key : PublicKey}

/-- The slots that stay if the keys of records are dropped. -/
def Survives (removed : Store.Records) (slot : Slot) : Prop :=
  ∀ name r, removed.find? name = some r → keyOf? r ≠ some slot.entry.key

theorem mem_keys_of_survives {k k' : Keyring} (h : k.Keeps k' (Survives removed)) :
    key ∈ k'.keys ↔ key ∈ k.keys ∧ key ∉ keysOf removed := by
  constructor
  · rintro ⟨name, slot, hf, rfl⟩
    obtain ⟨hf, hs⟩ := (h.slots name slot).1 hf
    exact ⟨⟨name, slot, hf, rfl⟩, fun ⟨other, r, hr, hk⟩ => hs other r hr hk⟩
  · rintro ⟨⟨name, slot, hf, rfl⟩, hno⟩
    exact ⟨name, slot, (h.slots name slot).2 ⟨hf, fun other r hr hk => hno ⟨other, r, hr, hk⟩⟩, rfl⟩

theorem dropKeys_of_indexed (hi : w.agent.keyring.Indexed) (hw : w.agent.keyring.poisoned = false)
    (rs : List (String × Store.Record)) :
    ∃ k, dropKeys rs w = .ok () (w.withKeyring k) ∧ w.agent.keyring.Keeps k fun slot =>
      ∀ e ∈ rs, keyOf? e.2 ≠ some slot.entry.key := by
  induction rs generalizing w with
  | nil => exact ⟨w.agent.keyring, rfl, .congr (.self _) fun slot => by simp⟩
  | cons e rest ih =>
    obtain ⟨name, r⟩ := e
    rw [dropKeys]
    cases hr : keyOf? r with
    | none =>
      obtain ⟨k, hd, hkeep⟩ := ih hi hw
      exact ⟨k, hd, hkeep.congr fun slot => by simp [hr]⟩
    | some key =>
      obtain ⟨b, k₁, hrem, hkeep₁⟩ := hi.remove hw key
      obtain ⟨k, hd, hkeep⟩ := ih (w := w.withKeyring k₁) (hkeep₁.indexed hi)
        (hkeep₁.poisoned.trans hw)
      refine ⟨k, ?_, (hkeep₁.trans hkeep).congr fun slot => ?_⟩
      · exact (bind_of_ok (onKeyring_of_ok hrem)).trans hd
      · simp [hr, eq_comm]

theorem dropKeys_toList (hi : w.agent.keyring.Indexed) (hw : w.agent.keyring.poisoned = false)
    (removed : Store.Records) : ∃ k, dropKeys removed.toList w = .ok () (w.withKeyring k) ∧
      w.agent.keyring.Keeps k (Survives removed) := by
  obtain ⟨k, hd, hkeep⟩ := dropKeys_of_indexed hi hw removed.toList
  refine ⟨k, hd, hkeep.congr fun slot => ?_⟩
  simp [Survives, NameMap.mem_toList]

theorem removeSecret_of_dropped (hm : w.records = .ok m)
    (hr : onStore (Store.remove name) (w.withStore m w.disk) = .ok removed w')
    (hd : dropKeys removed.toList w' = .ok () w'') :
    removeSecret name w = .ok removed.names w'' := by
  rw [removeSecret, bind_of_ok (reload_of_ok hm), bind_of_ok hr, bind_of_ok hd]
  rfl

/-- Once what is left is written, a removal comes to its end, whatever the records that went are like. -/
theorem removeSecret_of_remove (hi : w.agent.keyring.Indexed)
    (hw : w.agent.keyring.poisoned = false) (hm : w.records = .ok m)
    (hr : onStore (Store.remove name) (w.withStore m w.disk) = .ok removed w') :
    ∃ k, removeSecret name w = .ok removed.names (w'.withKeyring k) ∧
      w.agent.keyring.Keeps k (Survives removed) := by
  obtain ⟨-, d, rfl, -⟩ := remove_eq_ok hr
  obtain ⟨k, hdrop, hkeep⟩ := dropKeys_toList (w := w.withStore (m.leftWithout name) d) hi hw removed
  exact ⟨k, removeSecret_of_dropped hm hr hdrop, hkeep⟩

theorem removeSecret_eq_ok (hk : w.agent.keyring.Steady) (h : removeSecret name w = .ok names w') :
    ∃ m, w.records = .ok m ∧ names = (m.removedWith name).names ∧
      w.agent.keyring.Keeps w'.agent.keyring (Survives (m.removedWith name)) := by
  obtain ⟨u, t, hreload, hrest⟩ := bind_eq_ok.1 h
  obtain ⟨removed, t', hrem, -⟩ := bind_eq_ok.1 hrest
  obtain ⟨m, hm, rfl⟩ := reload_eq_ok hreload
  obtain ⟨rfl, -⟩ := remove_eq_ok hrem
  obtain ⟨k, hok, hkeep⟩ := removeSecret_of_remove hk.isIndexed hk.whole hm hrem
  cases h.symm.trans hok
  exact ⟨m, hm, rfl, hkeep⟩

/-- On a file that works a removal comes down to dropping the keys of what it takes out. -/
theorem removeSecret_of_dropKeys (hw : w.Works) (hm : w.records = .ok m) (name : String) :
    ∃ d, Store.Holds w.agent.store.path (m.leftWithout name) d ∧
      ∀ k, dropKeys (m.removedWith name).toList (w.withStore (m.leftWithout name) d) =
          .ok () ((w.withStore (m.leftWithout name) d).withKeyring k) →
        removeSecret name w =
          .ok (m.removedWith name).names ((w.withStore (m.leftWithout name) d).withKeyring k) := by
  obtain ⟨d, hr, hd⟩ := remove_of_holds (w := w) ⟨hm, hw⟩ name
  exact ⟨d, hd, fun k hdrop => removeSecret_of_dropped hm hr hdrop⟩

theorem removeSecret_of_works (hk : w.agent.keyring.Steady) (hw : w.Works) (hm : w.records = .ok m)
    (name : String) : ∃ d k, removeSecret name w =
        .ok (m.removedWith name).names ((w.withStore (m.leftWithout name) d).withKeyring k) ∧
      Store.Holds w.agent.store.path (m.leftWithout name) d ∧
      w.agent.keyring.Keeps k (Survives (m.removedWith name)) := by
  obtain ⟨d, hr, hd⟩ := remove_of_holds (w := w) ⟨hm, hw⟩ name
  obtain ⟨k, hok, hkeep⟩ := removeSecret_of_remove hk.isIndexed hk.whole hm hr
  exact ⟨d, k, hok, hd, hkeep⟩

end VaultAgent.Agent
