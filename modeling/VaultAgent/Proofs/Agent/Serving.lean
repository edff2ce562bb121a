import VaultAgent.Proofs.Agent.World
import VaultAgent.Proofs.Store.Resolve

/-!
# Serving keys

The keys of a store can be served if all its records resolve and each has a key (`Servable`). Serving
them adds them to the keyring (`serveStore_of_servable`), and succeeds in no other case
(`serveStore_eq_ok`).
-/

namespace VaultAgent.Agent

open VaultAgent.Action
open Ssh (PublicKey)

variable {w w' : World} {m : Store.Records} {secret : Secret} {e : AgentError} {now n : Nat}
  {key : PublicKey} {all : List Secret} {u : Unit}

/-! ## The keys of records and secrets -/

/-- The keys of records. -/
def keysOf (m : Store.Records) : Set PublicKey :=
  {key | ∃ name r, m.find? name = some r ∧ keyOf? r = some key}

/-- The keys of secrets. -/
def keysOfSecrets (all : List Secret) : Set PublicKey :=
  {key | ∃ secret ∈ all, PublicKey.ofLineBytes secret.publicData = .ok key}

theorem keyOf?_eq_some {r : Store.Record} : keyOf? r = some key ↔
    ∃ bytes, r.publicBytes = .ok bytes ∧ PublicKey.ofLineBytes bytes = .ok key := by
  rw [keyOf?]
  cases r.publicBytes with
  | error fault => simp
  | ok bytes => cases h : PublicKey.ofLineBytes bytes <;> simp [Except.toOption, h]

/-! ## One key -/

/-- Whatever fails while a key is served leaves no trace. -/
theorem serveSecret_eq_error (h : serveSecret now secret w = .error e w') : w' = w := by
  rw [serveSecret] at h
  rcases bind_eq_error.1 h with h | ⟨key, t, hk, h⟩
  · obtain ⟨-, -, -, rfl⟩ := ofExcept_eq_error.1 h
    rfl
  · obtain ⟨-, rfl⟩ := ofExcept_eq_ok.1 hk
    rw [get_bind] at h
    obtain ⟨e', k, ha, rfl⟩ := onKeyring_eq_error (bind_pure_eq_error.1 h)
    rw [Keyring.add_eq_error ha]
    rfl

/-- If there is a key, nothing but the keyring can refuse it. -/
theorem serveSecret_eq_error_of_key (hkey : PublicKey.ofLineBytes secret.publicData = .ok key)
    (h : serveSecret now secret w = .error e w') :
    e = .keyring .poisoned ∧ w.agent.keyring.poisoned = true := by
  rw [serveSecret, hkey, ofExcept_ok_bind, get_bind] at h
  obtain ⟨e', k, ha, rfl, -⟩ := onPart_eq_error.1 (bind_pure_eq_error.1 h)
  cases hp : w.agent.keyring.poisoned with
  | true =>
    rw [Keyring.add, Keyring.addFrom_of_poisoned hp (Keyring.inReach_of_lasting rfl now)] at ha
    cases ha
    exact ⟨rfl, rfl⟩
  | false =>
    obtain ⟨b, k', hb, -⟩ := Keyring.add_of_whole (e := entryFor w.agent.timeout secret key) hp rfl now
    rw [hb] at ha
    cases ha

theorem serveSecret_of_no_key {fault : PublicKey.LineError}
    (h : PublicKey.ofLineBytes secret.publicData = .error fault) :
    serveSecret now secret w = .error (.invalidKey secret.name fault) w := by
  rw [serveSecret, h]
  rfl

theorem serveSecret_of_add {b : Bool} {k : Keyring}
    (h : PublicKey.ofLineBytes secret.publicData = .ok key)
    (ha : Keyring.add now (entryFor w.agent.timeout secret key) w.agent.keyring = .ok b k) :
    serveSecret now secret w = .ok () (w.withKeyring k) := by
  rw [serveSecret, h, ofExcept_ok_bind, get_bind, bind_of_ok (onKeyring_of_ok ha)]
  rfl

theorem serveSecret_of_key (hk : w.agent.keyring.Steady)
    (h : PublicKey.ofLineBytes secret.publicData = .ok key) : serveSecret now secret w =
      .ok () (w.withKeyring (w.agent.keyring.withEntry (entryFor w.agent.timeout secret key))) := by
  obtain ⟨b, ha⟩ := hk.add (e := entryFor w.agent.timeout secret key) now rfl
  exact serveSecret_of_add h ha

/-- A secret that is served has a key, which is added to the keyring. -/
theorem add_of_serveSecret (h : serveSecret now secret w = .ok u w') :
    ∃ key b k, PublicKey.ofLineBytes secret.publicData = .ok key ∧
      Keyring.add now (entryFor w.agent.timeout secret key) w.agent.keyring = .ok b k ∧
      w' = w.withKeyring k := by
  obtain ⟨key, t, ho, h⟩ := bind_eq_ok.1 h
  obtain ⟨hkey, rfl⟩ := ofExcept_eq_ok.1 ho
  rw [get_bind] at h
  obtain ⟨b, t, hadd, h⟩ := bind_eq_ok.1 h
  cases h
  obtain ⟨k, ha, hw'⟩ := onKeyring_eq_ok hadd
  exact ⟨key, b, k, hkey, ha, hw'⟩

theorem serveSecret_eq_ok (hk : w.agent.keyring.Steady) (h : serveSecret now secret w = .ok u w') :
    ∃ key, PublicKey.ofLineBytes secret.publicData = .ok key ∧
      w' = w.withKeyring (w.agent.keyring.withEntry (entryFor w.agent.timeout secret key)) := by
  obtain ⟨key, b, k, hkey, -⟩ := add_of_serveSecret h
  rw [serveSecret_of_key hk hkey] at h
  cases h
  exact ⟨key, hkey, rfl⟩

/-! ## Several keys -/

/-- Every secret has a key. -/
def HaveKeys (all : List Secret) : Prop :=
  ∀ secret ∈ all, ∃ key, PublicKey.ofLineBytes secret.publicData = .ok key

theorem serveSecrets_of_haveKeys (now : Nat) (hk : w.agent.keyring.Steady) (h : HaveKeys all) :
    ∃ k, serveSecrets now all w = .ok () (w.withKeyring k) ∧
      w.agent.keyring.Gains k (keysOfSecrets all) := by
  induction all generalizing w with
  | nil =>
    have hnone : keysOfSecrets [] = ∅ := by simp [keysOfSecrets]
    exact ⟨w.agent.keyring, rfl, hnone ▸ .none hk⟩
  | cons secret rest ih =>
    obtain ⟨⟨key, hkey⟩, hrest⟩ := List.forall_mem_cons.1 h
    have hg := hk.gains (entryFor w.agent.timeout secret key)
    obtain ⟨k, hs, hgk⟩ := ih (w := w.withKeyring _) hg.steady hrest
    have hkeys : keysOfSecrets (secret :: rest) = {key} ∪ keysOfSecrets rest := by
      ext other
      simp [keysOfSecrets, hkey, eq_comm]
    refine ⟨k, ?_, hkeys ▸ hg.trans hgk⟩
    rw [serveSecrets, bind_of_ok (serveSecret_of_key hk hkey)]
    exact hs

theorem haveKeys_of_serveSecrets (h : serveSecrets now all w = .ok u w') : HaveKeys all := by
  induction all generalizing w with
  | nil => exact nofun
  | cons secret rest ih =>
    obtain ⟨v, t, hs, h⟩ := bind_eq_ok.1 h
    obtain ⟨key, -, -, hkey, -⟩ := add_of_serveSecret hs
    exact List.forall_mem_cons.2 ⟨⟨key, hkey⟩, ih h⟩

/-! ## All keys -/

/-- All records resolve and have keys. -/
structure Servable (m : Store.Records) : Prop where
  resolves : m.Resolves
  keys : ∀ name r, m.find? name = some r → ∃ key, keyOf? r = some key

theorem keysOfSecrets_eq (h : m.secrets = .ok all) : keysOfSecrets all = keysOf m := by
  obtain ⟨hr, hmem⟩ := Store.Records.secrets_eq_ok h
  ext key
  constructor
  · rintro ⟨secret, hs, hk⟩
    obtain ⟨name, hs⟩ := (hmem secret).1 hs
    obtain ⟨-, r, hf, hp⟩ := Store.Records.find?_of_secret hs
    exact ⟨name, r, hf, keyOf?_eq_some.2 ⟨_, hp, hk⟩⟩
  · rintro ⟨name, r, hf, hk⟩
    obtain ⟨secret, hs⟩ := hr name (NameMap.contains_eq_true.2 ⟨r, hf⟩)
    obtain ⟨-, r', hf', hp⟩ := Store.Records.find?_of_secret hs
    obtain rfl := Option.some.inj (hf.symm.trans hf')
    obtain ⟨bytes, hp', hk⟩ := keyOf?_eq_some.1 hk
    cases hp.symm.trans hp'
    exact ⟨secret, (hmem secret).2 ⟨name, hs⟩, hk⟩

theorem servable_iff (h : m.secrets = .ok all) : Servable m ↔ HaveKeys all := by
  obtain ⟨hr, hmem⟩ := Store.Records.secrets_eq_ok h
  constructor
  · intro hs secret hsec
    obtain ⟨name, hsec⟩ := (hmem secret).1 hsec
    obtain ⟨-, r, hf, hp⟩ := Store.Records.find?_of_secret hsec
    obtain ⟨key, hk⟩ := hs.keys name r hf
    obtain ⟨bytes, hp', hk⟩ := keyOf?_eq_some.1 hk
    cases hp.symm.trans hp'
    exact ⟨key, hk⟩
  · intro hs
    refine ⟨hr, fun name r hf => ?_⟩
    obtain ⟨secret, hsec⟩ := hr name (NameMap.contains_eq_true.2 ⟨r, hf⟩)
    obtain ⟨-, r', hf', hp⟩ := Store.Records.find?_of_secret hsec
    obtain rfl := Option.some.inj (hf.symm.trans hf')
    obtain ⟨key, hk⟩ := hs secret ((hmem secret).2 ⟨name, hsec⟩)
    exact ⟨key, keyOf?_eq_some.2 ⟨_, hp, hk⟩⟩

theorem secrets_of_ok (hw : w.records = .ok m) (h : m.secrets = .ok all) :
    secrets w = .ok all (w.withStore m w.disk) := by
  rw [secrets, bind_of_ok (reload_of_ok hw)]
  exact ofStore_of_ok h

theorem secrets_eq_ok (h : secrets w = .ok all w') :
    ∃ m, w.records = .ok m ∧ m.secrets = .ok all ∧ w' = w.withStore m w.disk := by
  obtain ⟨u, t, hr, h⟩ := bind_eq_ok.1 h
  obtain ⟨m, hw, rfl⟩ := reload_eq_ok hr
  obtain ⟨hall, rfl⟩ := ofExcept_eq_ok.1 h
  exact ⟨m, hw, hall, rfl⟩

theorem serveStore_of_serveSecrets (hw : w.records = .ok m) (hall : m.secrets = .ok all)
    (hs : serveSecrets now all (w.withStore m w.disk) = .ok u w') :
    serveStore now w = .ok all.length w' := by
  rw [serveStore, bind_of_ok (secrets_of_ok hw hall), bind_of_ok hs]
  rfl

theorem serveStore_of_servable (now : Nat) (hk : w.agent.keyring.Steady) (hw : w.records = .ok m)
    (hm : Servable m) : ∃ n k, serveStore now w = .ok n ((w.withStore m w.disk).withKeyring k) ∧
      w.agent.keyring.Gains k (keysOf m) := by
  obtain ⟨all, hall⟩ := hm.resolves.exists_secrets
  obtain ⟨k, hs, hg⟩ := serveSecrets_of_haveKeys (w := w.withStore m w.disk) now hk
    ((servable_iff hall).1 hm)
  exact ⟨all.length, k, serveStore_of_serveSecrets hw hall hs, keysOfSecrets_eq hall ▸ hg⟩

/-- Only what is servable is served. -/
theorem servable_of_serveStore (h : serveStore now w = .ok n w') :
    ∃ m, w.records = .ok m ∧ Servable m := by
  obtain ⟨all, t, hsec, hs⟩ := bind_eq_ok.1 h
  obtain ⟨u, v, hs, -⟩ := bind_eq_ok.1 hs
  obtain ⟨m, hw, hall, rfl⟩ := secrets_eq_ok hsec
  exact ⟨m, hw, (servable_iff hall).2 (haveKeys_of_serveSecrets hs)⟩

theorem serveStore_eq_ok (hk : w.agent.keyring.Steady) (h : serveStore now w = .ok n w') :
    ∃ m k, w.records = .ok m ∧ Servable m ∧ w' = (w.withStore m w.disk).withKeyring k ∧
      w.agent.keyring.Gains k (keysOf m) := by
  obtain ⟨m, hw, hm⟩ := servable_of_serveStore h
  obtain ⟨n', k, h', hg⟩ := serveStore_of_servable now hk hw hm
  cases h.symm.trans h'
  exact ⟨m, k, hw, hm, rfl, hg⟩

end VaultAgent.Agent
