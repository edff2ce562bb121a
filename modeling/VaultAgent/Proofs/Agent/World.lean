import VaultAgent.Agent
import VaultAgent.Proofs.Keyring
import VaultAgent.Proofs.Store.Ready

/-!
# The parts of an agent's world

`w.records` are the records in the agent's file. Each operation begins by reading them, so that they,
and not those in memory, say what it does. Where the file `Works`, a change of the store goes through.
-/

namespace VaultAgent.Agent

open VaultAgent.Action

variable {w w' : World} {m : Store.Records} {d : Disk} {secret : Secret} {e : AgentError}

namespace World

/-- The records in the file. -/
def records (w : World) : Except StoreError Store.Records :=
  Store.recordsAt w.agent.store.path w.disk

/-- The file can be written and read. -/
def Works (w : World) : Prop :=
  Store.FileWorks w.agent.store.path w.disk

/-- The world with other records in memory and another disk. -/
def withStore (w : World) (m : Store.Records) (d : Disk) : World :=
  { w with agent := { w.agent with store := { w.agent.store with records := m } }, disk := d }

def withKeyring (w : World) (keyring : Keyring) : World :=
  { w with agent := { w.agent with keyring } }

/-- The world after another call to the vault. -/
def withCall (w : World) (call : VaultCall) : World :=
  { w with calls := w.calls ++ [call] }

end World

/-! ## Actions on the parts -/

section

variable {α : Type} {x : α} {s : Store}

theorem onStore_of_ok {a : Store.StoreAction α} (h : a (w.agent.store, w.disk) = .ok x (s, d)) :
    onStore a w = .ok x { w with agent := { w.agent with store := s }, disk := d } := by
  unfold onStore onPart
  simp only [h]

theorem onStore_of_error {a : Store.StoreAction α} {e : StoreError}
    (h : a (w.agent.store, w.disk) = .error e (s, d)) :
    onStore a w = .error (.store e) { w with agent := { w.agent with store := s }, disk := d } := by
  unfold onStore onPart
  simp only [h]

theorem onStore_eq_ok {a : Store.StoreAction α} (h : onStore a w = .ok x w') :
    ∃ p, a (w.agent.store, w.disk) = .ok x p ∧
      w' = { w with agent := { w.agent with store := p.1 }, disk := p.2 } := by
  obtain ⟨p, ha, rfl⟩ := onPart_eq_ok.1 h
  exact ⟨p, ha, rfl⟩

theorem onKeyring_of_ok {a : Keyring.KeyringAction α} {k : Keyring}
    (h : a w.agent.keyring = .ok x k) : onKeyring a w = .ok x (w.withKeyring k) := by
  unfold onKeyring onPart
  simp only [h]
  rfl

theorem onKeyring_eq_ok {a : Keyring.KeyringAction α} (h : onKeyring a w = .ok x w') :
    ∃ k, a w.agent.keyring = .ok x k ∧ w' = w.withKeyring k := by
  obtain ⟨k, ha, rfl⟩ := onPart_eq_ok.1 h
  exact ⟨k, ha, rfl⟩

theorem onKeyring_eq_error {a : Keyring.KeyringAction α} (h : onKeyring a w = .error e w') :
    ∃ e' k, a w.agent.keyring = .error e' k ∧ w' = w.withKeyring k := by
  obtain ⟨e', k, ha, -, rfl⟩ := onPart_eq_error.1 h
  exact ⟨e', k, ha, rfl⟩

theorem ofStore_of_ok {ask : Store → Except StoreError α} (h : ask w.agent.store = .ok x) :
    ofStore ask w = .ok x w := by
  rw [ofStore, get_bind, h]
  rfl

theorem asks_ofStore (ask : Store → Except StoreError α) : (ofStore ask).Asks :=
  .bind .get fun _ => .ofExcept _ _

theorem outcome_ofStore {ask : Store → Except StoreError α} :
    (ofStore ask).outcome w = (ask w.agent.store).mapError .store := by
  rw [ofStore, outcome_get_bind, outcome_ofExcept]

end

/-! ## The store -/

theorem reload_of_ok (h : w.records = .ok m) :
    onStore Store.reload w = .ok () (w.withStore m w.disk) :=
  onStore_of_ok (Store.reload_of_ok h)

theorem reload_of_error {e : StoreError} (h : w.records = .error e) :
    onStore Store.reload w = .error (.store e) w :=
  onStore_of_error (Store.reload_of_error h)

theorem reload_eq_ok {u : Unit} (h : onStore Store.reload w = .ok u w') :
    ∃ m, w.records = .ok m ∧ w' = w.withStore m w.disk := by
  cases hm : w.records with
  | error e => rw [reload_of_error hm] at h; cases h
  | ok m => rw [reload_of_ok hm] at h; cases h; exact ⟨m, rfl, rfl⟩

theorem insert_of_accepts (ha : m.Accepts secret) (hd : Store.FileWorks w.agent.store.path d) :
    ∃ d', onStore (Store.insert secret) (w.withStore m d) =
        .ok () (w.withStore (m.withSecret secret) d') ∧
      Store.Holds w.agent.store.path (m.withSecret secret) d' := by
  obtain ⟨d', hi, hh⟩ := Store.insert_of_accepts (s := (w.withStore m d).agent.store) ha hd
  exact ⟨d', onStore_of_ok hi, hh⟩

theorem insert_of_not_accepts (ha : ¬ m.Accepts secret) :
    ∃ e, onStore (Store.insert secret) (w.withStore m d) = .error e (w.withStore m d) := by
  obtain ⟨e, hi⟩ := Store.insert_of_not_accepts (s := (w.withStore m d).agent.store) (d := d) ha
  exact ⟨.store e, onStore_of_error hi⟩

theorem insert_eq_ok {u : Unit} (h : onStore (Store.insert secret) (w.withStore m d) = .ok u w') :
    m.Accepts secret ∧ ∃ d', w' = w.withStore (m.withSecret secret) d' ∧
      Store.replaceFile w.agent.store.path (m.withSecret secret).toDocument d = .ok () d' := by
  obtain ⟨⟨s, d'⟩, hi, rfl⟩ := onStore_eq_ok h
  obtain ⟨ha, rfl, hw⟩ := Store.insert_eq_ok hi
  exact ⟨ha, d', rfl, hw⟩

/-- A removal writes what is left, unless there was nothing to remove. -/
theorem remove_eq_ok {removed : Store.Records} {name : String}
    (h : onStore (Store.remove name) (w.withStore m d) = .ok removed w') :
    removed = m.removedWith name ∧ ∃ d', w' = w.withStore (m.leftWithout name) d' ∧
      (m.leftWithout name = m ∧ d' = d ∨
        Store.replaceFile w.agent.store.path (m.leftWithout name).toDocument d = .ok () d') := by
  obtain ⟨⟨s, d'⟩, hr, rfl⟩ := onStore_eq_ok h
  refine ⟨Store.remove_eq_ok hr, d', ?_⟩
  unfold Store.Records.leftWithout
  cases hc : m.contains name with
  | false =>
    rw [Store.remove_of_not_contains hc] at hr
    cases hr
    exact ⟨rfl, .inl ⟨rfl, rfl⟩⟩
  | true =>
    obtain ⟨-, rfl, hw⟩ := Store.remove_eq_ok_of_contains hc hr
    exact ⟨rfl, .inr hw⟩

/-- A removal fails if what is left cannot be written. The records stay. -/
theorem remove_eq_error {name : String}
    (h : onStore (Store.remove name) (w.withStore m d) = .error e w') :
    ∃ fault d', e = .store fault ∧ w' = w.withStore m d' ∧
      Store.WriteFails w.agent.store.path d fault d' := by
  obtain ⟨fault, ⟨s, d'⟩, hr, rfl, rfl⟩ := onPart_eq_error.1 h
  obtain ⟨hs, hfails⟩ := Store.remove_eq_error hr
  obtain rfl : s = _ := hs
  exact ⟨fault, d', rfl, rfl, hfails⟩

theorem remove_of_holds (h : Store.Holds w.agent.store.path m d) (name : String) :
    ∃ d', onStore (Store.remove name) (w.withStore m d) =
        .ok (m.removedWith name) (w.withStore (m.leftWithout name) d') ∧
      Store.Holds w.agent.store.path (m.leftWithout name) d' := by
  obtain ⟨d', hr, hh⟩ := Store.remove_of_holds (s := (w.withStore m d).agent.store) h name
  exact ⟨d', onStore_of_ok hr, hh⟩

/-! ## New agents -/

/-- A new agent, on a disk on which there is only its file, with these records. -/
def World.fresh (m : Store.Records) : World :=
  ⟨.new ⟨Store.plainPath, .empty⟩ ⟨"agent.sock"⟩, Store.diskWith m, []⟩

theorem World.records_fresh (m : Store.Records) : (World.fresh m).records = .ok m :=
  (Store.holds_diskWith m).1

theorem World.works_fresh (m : Store.Records) : (World.fresh m).Works :=
  (Store.holds_diskWith m).2

end VaultAgent.Agent
