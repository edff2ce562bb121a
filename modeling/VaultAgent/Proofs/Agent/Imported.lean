import VaultAgent.Proofs.Agent.Import
import VaultAgent.Proofs.Export
import VaultAgent.Proofs.Store.Acceptance
import VaultAgent.Proofs.Store.Reopening

/-!
# Imported keys

What is stored for an exported key can be served. The secret of an export keeps the line of its key,
the record of the secret keeps that line, and the line is read as the key; so once a secret is in the
store, only its groups or a keyring that was left half changed keep it from being served
(`key_of_import`).
-/

namespace VaultAgent.Agent

open VaultAgent.Action
open Ssh (PublicKey)

variable {w w' w₁ : World} {m : Store.Records} {secret t : Secret} {e : AgentError} {now : Nat}
  {vault : Vault} {name encoded fallbackName : String} {key : PublicKey}

/-! ## In the store -/

/-- What is stored under the name has the key, as a record and as the secret that is made of it. -/
structure HoldsKey (s : Store) (name : String) (key : PublicKey) : Prop where
  record : ∃ r, s.records.find? name = some r ∧ keyOf? r = some key
  secret : ∀ t, s.secret name = .ok t → PublicKey.ofLineBytes t.publicData = .ok key

theorem ofLineBytes_of_secret (hkey : PublicKey.ofLineBytes secret.publicData = .ok key)
    (h : (m.withSecret secret).secret secret.name = .ok t) :
    PublicKey.ofLineBytes t.publicData = .ok key := by
  have hdata : t.publicData = secret.publicData :=
    congrArg Member.publicData (Store.Records.toMember_of_secret h)
  rw [hdata, hkey]

theorem holdsKey_of_insert {s s' : Store} {d d' : Disk}
    (hkey : PublicKey.ofLineBytes secret.publicData = .ok key)
    (h : Store.insert secret (s, d) = .ok () (s', d')) :
    HoldsKey s' secret.name key ∧ Store.Reopens s.path d s' d' := by
  obtain ⟨-, hs, hw⟩ := Store.insert_eq_ok h
  obtain rfl : s' = _ := hs
  refine ⟨⟨⟨_, Store.Records.find?_withSecret_self, ?_⟩, fun t ht => ?_⟩, .of_replaceFile rfl hw⟩
  · exact keyOf?_eq_some.2 ⟨_, Store.Record.publicBytes_ofSecret secret, hkey⟩
  · exact ofLineBytes_of_secret hkey ht

/-! ## After the store was written -/

/-- An import under this name gets so far that the secret is in the store. -/
def Stores (vault : Vault) (name : String) (w : World) (secret : Secret) (w₁ : World) : Prop :=
  ∃ w₂ w₃, exportedSecret vault name w = .ok secret w₂ ∧ onStore Store.reload w₂ = .ok () w₃ ∧
    onStore (Store.insert secret) w₃ = .ok () w₁

/-- The groups of a new secret do not resolve, or there are too many of them. -/
def ChainFails (m : Store.Records) (secret : Secret) : Prop :=
  secret.vaultGroup ≠ "" ∧
    ∀ p, m.secret secret.vaultGroup = .ok p → Store.maxDepth < p.ancestors.length + 2

theorem chainFails_of_secret_eq_error {cause : StoreError} (hn : m.contains secret.name = false)
    (h : (m.withSecret secret).secret secret.name = .error cause) : ChainFails m secret := by
  have hg : secret.vaultGroup ≠ "" := by
    intro hg
    rw [Store.Records.secret_of_no_group hg] at h
    cases h
  refine ⟨hg, fun p hp => ?_⟩
  rw [Store.Records.secret_of_group hn hg hp] at h
  split at h
  · cases h
  · rename_i hroom
    exact Nat.lt_of_not_le hroom

theorem Stores.world (h : Stores vault name w secret w₁) : ∃ m d, w.records = .ok m ∧
    m.contains secret.name = false ∧
      w₁ = (w.withCall (.exportKey name)).withStore (m.withSecret secret) d := by
  obtain ⟨w₂, w₃, hs, hr, hi⟩ := h
  obtain rfl : w₂ = w.withCall (.exportKey name) :=
    (after_of_ok hs).symm.trans (after_exportedSecret vault name w)
  obtain ⟨m, hm, rfl⟩ := reload_eq_ok hr
  obtain ⟨ha, d, rfl, -⟩ := insert_eq_ok hi
  exact ⟨m, d, hm, ha.1, rfl⟩

/-- Taking the secret out again may fail, but that is not what the import tells of. -/
theorem serveNamed_of_importSecret_eq_error (hs : Stores vault name w secret w₁)
    (h : importSecret now vault name w = .error e w') :
    ∃ w'', serveNamed now secret.name w₁ = .error e w'' := by
  obtain ⟨w₂, w₃, hs, hr, hi⟩ := hs
  rw [importSecret, bind_of_ok hs, bind_of_ok hr, bind_of_ok hi] at h
  cases hn : serveNamed now secret.name w₁ with
  | ok stored w'' =>
    rw [bind_of_ok (attempt_of_ok hn)] at h
    cases h
  | error e' w'' =>
    rw [bind_of_ok (attempt_of_error hn)] at h
    rcases bind_eq_error.1 h with h | ⟨_, _, -, h⟩
    · obtain ⟨_, _, h, -⟩ := onPart_eq_error.1 h
      exact absurd h attempt_ne_error
    · cases h
      exact ⟨w'', rfl⟩

theorem importSecret_eq_error_of_stores (hkey : PublicKey.ofLineBytes secret.publicData = .ok key)
    (hs : Stores vault name w secret w₁) (h : importSecret now vault name w = .error e w') :
    (∃ cause m, e = .store cause ∧ w₁.agent.store.secret secret.name = .error cause ∧
        w.records = .ok m ∧ ChainFails m secret) ∨
      e = .keyring .poisoned ∧ w.agent.keyring.poisoned = true := by
  obtain ⟨w'', hn⟩ := serveNamed_of_importSecret_eq_error hs h
  obtain ⟨m, d, hm, hfree, rfl⟩ := hs.world
  rcases bind_eq_error.1 hn with hn | ⟨stored, _, hf, hn⟩
  · obtain ⟨cause, hc, rfl, -⟩ := ofExcept_eq_error.1 hn
    exact .inl ⟨cause, m, rfl, hc, hm, chainFails_of_secret_eq_error hfree hc⟩
  · obtain ⟨hfound, rfl⟩ := ofExcept_eq_ok.1 hf
    have hfresh := ofLineBytes_of_secret hkey hfound
    obtain ⟨rfl, hp⟩ := serveSecret_eq_error_of_key hfresh (bind_pure_eq_error.1 hn)
    exact .inr ⟨rfl, hp⟩

/-- The secret of an export has the key that was exported, also when it has been stored and read back.
So an import that has stored it fails only if its groups or the keyring do. -/
theorem key_of_import (h : Secret.ofExport encoded fallbackName = .ok secret) : ∃ raw key,
    Export.Exports encoded secret.secretType raw ∧
      Export.publicKey secret.secretType raw = .ok key ∧
      PublicKey.ofLineBytes secret.publicData = .ok key ∧
      (∀ s d s' d', Store.insert secret (s, d) = .ok () (s', d') →
        HoldsKey s' secret.name key ∧ Store.Reopens s.path d s' d') ∧
      ∀ now vault name w w₁ e w', Stores vault name w secret w₁ →
        importSecret now vault name w = .error e w' →
          (∃ cause m, e = .store cause ∧ w₁.agent.store.secret secret.name = .error cause ∧
              w.records = .ok m ∧ ChainFails m secret) ∨
            e = .keyring .poisoned ∧ w.agent.keyring.poisoned = true := by
  obtain ⟨raw, key, hexports, hpublic, hdata⟩ := Export.publicData_of_ofExport h
  have hkey : PublicKey.ofLineBytes secret.publicData = .ok key := by
    rw [hdata, Export.ofLineBytes_of_publicKey hpublic]
  refine ⟨raw, key, hexports, hpublic, hkey, fun s d s' d' hi => holdsKey_of_insert hkey hi, ?_⟩
  intro now vault name w w₁ e w' hs herr
  exact importSecret_eq_error_of_stores hkey hs herr

/-- The secret of `teamKey`. -/
def teamSecret : Secret :=
  ⟨⟨"k1", "f", "c", "ed25519", Utf8.bytes (PublicKey.ed25519 (List.replicate 32 4)).line⟩,
    [⟨"team", "", "", "", []⟩]⟩

/-- The group of `teamSecret` leads nowhere. -/
def brokenTeam : Store.Records :=
  .ofList [("team", keyless "gone")]

theorem key_of_import_under_broken_group : Secret.ofExport teamKey "k1" = .ok teamSecret ∧
    PublicKey.ofLineBytes teamSecret.publicData = .ok (.ed25519 (List.replicate 32 4)) ∧
    ∃ w₁ e w', Stores (exporting teamKey) "k1" (World.fresh brokenTeam) teamSecret w₁ ∧
      importSecret 0 (exporting teamKey) "k1" (World.fresh brokenTeam) = .error e w' ∧
      ∃ cause, e = .store cause ∧ w₁.agent.store.secret "k1" = .error cause ∧
        ChainFails brokenTeam teamSecret := by
  have hsecret : Secret.ofExport teamKey "k1" = .ok teamSecret := by decide +kernel
  obtain ⟨raw, key, -, -, hkey, -, himport⟩ := key_of_import hsecret
  have hpublic : Export.publicKey "ed25519" (List.replicate 32 4) =
      .ok (.ed25519 (List.replicate 32 4)) := by decide +kernel
  have hexported : (exportedSecret (exporting teamKey) "k1").outcome (World.fresh brokenTeam) =
      .ok teamSecret := by
    rw [outcome_exportedSecret_of_within rfl]
    exact mapError_eq_ok.2 hsecret
  have haccepts : brokenTeam.Accepts teamSecret := ⟨by decide, by rintro _ ⟨⟩; decide⟩
  have hrecords := World.records_fresh brokenTeam
  have hworks := World.works_fresh brokenTeam
  obtain ⟨d, hinsert, -⟩ := insert_of_accepts (w := (World.fresh brokenTeam).withCall (.exportKey "k1"))
    haccepts hworks
  have hstores : Stores (exporting teamKey) "k1" (World.fresh brokenTeam) teamSecret _ :=
    ⟨_, _, exportedSecret_of_ok hexported, reload_of_ok hrecords, hinsert⟩
  have hfails : (brokenTeam.withSecret teamSecret).secret "k1" = .error (.notFound "gone") := by
    decide +kernel
  refine ⟨hsecret, Export.ofLineBytes_of_publicKey hpublic, ?_⟩
  obtain ⟨_, _, -, rfl, ⟨stored, _, hserve, -⟩ | ⟨e, _, herror, -⟩⟩ :=
    importSecret_of_admits 0 hworks ⟨hexported, hrecords, haccepts⟩
  · obtain ⟨hfound, -⟩ := serveSecret_of_serveNamed hserve
    cases hfails.symm.trans hfound
  · refine ⟨_, e, _, hstores, herror, ?_⟩
    rcases himport 0 _ _ _ _ _ _ hstores herror with ⟨cause, m, he, hc, hm, hchain⟩ | ⟨-, hp⟩
    · rw [hrecords] at hm
      cases hm
      exact ⟨cause, he, hc, hchain⟩
    · cases hp

end VaultAgent.Agent
