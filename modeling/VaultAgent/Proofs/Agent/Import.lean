import VaultAgent.Proofs.Agent.Serving

/-!
# What an import leaves behind

An import either is refused before the store is written, or stores the secret and serves its key, or
stores the secret, finds that it cannot be served, and takes it out again. The last takes out all that
is grouped under the name with it, so it restores the store only if nothing was grouped under the name
before (`unchanged_iff_of_importSecret_error`).
-/

namespace VaultAgent.Agent

open VaultAgent.Action
open Ssh (PublicKey)

variable {w w' : World} {m : Store.Records} {secret stored : Secret} {e : AgentError} {now : Nat}
  {vault : Vault} {name : String}

/-! ## The steps -/

/-- Asking the vault is noted, whatever comes of it. -/
theorem after_exportedSecret (vault : Vault) (name : String) (w : World) :
    (exportedSecret vault name).after w = w.withCall (.exportKey name) := by
  have hrest (answer : Answer String) : (do
      let encoded ← ofExcept .vault (answer.within (← get).agent.timeout)
      ofExcept .importing (Secret.ofExport encoded name) : AgentAction Secret).Asks :=
    .bind .get fun _ => .bind (.ofExcept _ _) fun _ => .ofExcept _ _
  exact hrest _ _

/-- What the vault gives depends on the calls before and on how long it is waited for. -/
theorem outcome_exportedSecret : (exportedSecret vault name).outcome w = (do
    let encoded ← ((vault.exportKey w.calls name).within w.agent.timeout).mapError .vault
    (Secret.ofExport encoded name).mapError .importing) := by
  rw [exportedSecret, outcome_get_bind, outcome_modify_bind, outcome_get_bind, outcome_ofExcept_bind]
  simp only [outcome_ofExcept]

theorem outcome_exportedSecret_of_within {encoded : String}
    (h : (vault.exportKey w.calls name).within w.agent.timeout = .ok encoded) :
    (exportedSecret vault name).outcome w =
      (Secret.ofExport encoded name).mapError .importing := by
  rw [outcome_exportedSecret, h]
  rfl

theorem exportedSecret_of_ok (h : (exportedSecret vault name).outcome w = .ok secret) :
    exportedSecret vault name w = .ok secret (w.withCall (.exportKey name)) :=
  after_exportedSecret vault name w ▸ outcome_eq_ok.1 h

theorem exportedSecret_of_error (h : (exportedSecret vault name).outcome w = .error e) :
    exportedSecret vault name w = .error e (w.withCall (.exportKey name)) :=
  after_exportedSecret vault name w ▸ outcome_eq_error.1 h

theorem serveNamed_eq_error (h : serveNamed now name w = .error e w') : w' = w := by
  rcases bind_eq_error.1 h with h | ⟨stored, t, hs, h⟩
  · obtain ⟨-, -, -, rfl⟩ := ofExcept_eq_error.1 h
    rfl
  · obtain ⟨-, rfl⟩ := ofExcept_eq_ok.1 hs
    exact serveSecret_eq_error (bind_pure_eq_error.1 h)

/-- What is served under a name is what the store in memory has under it. -/
theorem serveSecret_of_serveNamed (h : serveNamed now name w = .ok stored w') :
    w.agent.store.records.secret name = .ok stored ∧ serveSecret now stored w = .ok () w' := by
  obtain ⟨found, t, hs, h⟩ := bind_eq_ok.1 h
  obtain ⟨hfound, rfl⟩ := ofExcept_eq_ok.1 hs
  obtain ⟨u, t, hv, h⟩ := bind_eq_ok.1 h
  cases h
  exact ⟨hfound, hv⟩

theorem serveNamed_eq_ok (hk : w.agent.keyring.Steady) (h : serveNamed now name w = .ok stored w') :
    w.agent.store.records.secret name = .ok stored ∧
      ∃ key, PublicKey.ofLineBytes stored.publicData = .ok key ∧
        w' = w.withKeyring (w.agent.keyring.withEntry (entryFor w.agent.timeout stored key)) := by
  obtain ⟨hfound, hv⟩ := serveSecret_of_serveNamed h
  exact ⟨hfound, serveSecret_eq_ok hk hv⟩

/-! ## The three endings -/

/-- What the vault gives for the name can be put into the store. -/
def Admits (vault : Vault) (name : String) (w : World) (secret : Secret) (m : Store.Records) : Prop :=
  (exportedSecret vault name).outcome w = .ok secret ∧ w.records = .ok m ∧ m.Accepts secret

theorem importSecret_of_not_admits (now : Nat) (h : ∀ secret m, ¬ Admits vault name w secret m) :
    ∃ e w', importSecret now vault name w = .error e w' ∧
      w'.agent.keyring = w.agent.keyring ∧ w'.agent.store.path = w.agent.store.path ∧
      w'.disk = w.disk := by
  cases hs : (exportedSecret vault name).outcome w with
  | error e => exact ⟨e, _, bind_of_error (exportedSecret_of_error hs), rfl, rfl, rfl⟩
  | ok secret =>
  cases hm : w.records with
  | error e =>
    refine ⟨.store e, w.withCall (.exportKey name), ?_, rfl, rfl, rfl⟩
    rw [importSecret, bind_of_ok (exportedSecret_of_ok hs)]
    exact bind_of_error (reload_of_error hm)
  | ok m =>
    have ha : ¬ m.Accepts secret := fun ha => h secret m ⟨hs, hm, ha⟩
    obtain ⟨e, hi⟩ := insert_of_not_accepts (w := w.withCall (.exportKey name)) (d := w.disk) ha
    refine ⟨e, (w.withCall (.exportKey name)).withStore m w.disk, ?_, rfl, rfl, rfl⟩
    rw [importSecret, bind_of_ok (exportedSecret_of_ok hs)]
    rw [bind_of_ok (reload_of_ok (w := w.withCall (.exportKey name)) hm)]
    exact bind_of_error hi

/-- A secret that can be put into the store is stored. If its key can be served, that is all; if not,
all that is grouped under its name is taken out. -/
theorem importSecret_of_admits (now : Nat) (hw : w.Works) (h : Admits vault name w secret m) :
    ∃ d w₁, Store.Holds w.agent.store.path (m.withSecret secret) d ∧
      w₁ = (w.withCall (.exportKey name)).withStore (m.withSecret secret) d ∧
      ((∃ stored w', serveNamed now secret.name w₁ = .ok stored w' ∧
          importSecret now vault name w = .ok stored w') ∨
        ∃ e d', importSecret now vault name w = .error e (w₁.withStore (m.without secret.name) d') ∧
          Store.Holds w.agent.store.path (m.without secret.name) d') := by
  obtain ⟨hs, hm, ha⟩ := h
  obtain ⟨w₀, hw₀⟩ : ∃ w₀, w.withCall (.exportKey name) = w₀ := ⟨_, rfl⟩
  have hm₀ : w₀.records = .ok m := hw₀ ▸ hm
  have hpath : w.agent.store.path = w₀.agent.store.path := hw₀ ▸ rfl
  obtain ⟨d, hi, hd⟩ := insert_of_accepts (w := w₀) (d := w₀.disk) ha (hw₀ ▸ hw)
  rw [hpath, hw₀]
  refine ⟨d, _, hd, rfl, ?_⟩
  rw [importSecret, bind_of_ok (exportedSecret_of_ok hs), hw₀, bind_of_ok (reload_of_ok hm₀),
    bind_of_ok hi]
  cases hn : serveNamed now secret.name (w₀.withStore (m.withSecret secret) d) with
  | ok stored w' =>
    refine .inl ⟨stored, w', rfl, ?_⟩
    rw [bind_of_ok (attempt_of_ok hn)]
    rfl
  | error e w' =>
    obtain rfl := serveNamed_eq_error hn
    -- The secret is in the store, so it can be removed; what goes with it was grouped under it before.
    have hc : (m.withSecret secret).contains secret.name = true := by
      rw [NameMap.contains, Store.Records.withSecret, NameMap.find?_insert, if_pos rfl]
      rfl
    obtain ⟨d', hr, hd'⟩ := Store.remove_of_holds
      (s := ⟨w₀.agent.store.path, m.withSecret secret⟩) hd secret.name
    have hrest : (m.withSecret secret).leftWithout secret.name = m.without secret.name := by
      rw [Store.Records.leftWithout, if_pos hc]
      exact Store.Records.without_insert ha.1 _
    simp only [hrest] at hr hd'
    refine .inr ⟨e, d', (bind_of_ok (attempt_of_error hn)).trans ?_, hd'⟩
    exact bind_of_ok (onStore_of_ok (attempt_of_ok hr))

theorem Admits.unique {secret' : Secret} {m' : Store.Records} (h : Admits vault name w secret m)
    (h' : Admits vault name w secret' m') : secret = secret' ∧ m = m' :=
  ⟨Except.ok.inj (h.1.symm.trans h'.1), Except.ok.inj (h.2.1.symm.trans h'.2.1)⟩

/-- An import that fails leaves the keyring as it was. It leaves the records as they were unless the
secret got as far as the store and there were records grouped under its name. -/
theorem unchanged_iff_of_importSecret_error (hw : w.Works)
    (h : importSecret now vault name w = .error e w') :
    w'.agent.keyring = w.agent.keyring ∧ (w'.records = w.records ↔
      ¬ ∃ secret m other, Admits vault name w secret m ∧ m.Under other secret.name) := by
  by_cases ha : ∃ secret m, Admits vault name w secret m
  · obtain ⟨secret, m, ha⟩ := ha
    obtain ⟨d, w₁, -, rfl, ⟨stored, t, -, hok⟩ | ⟨e', d', herr, hd'⟩⟩ :=
      importSecret_of_admits now hw ha
    · rw [hok] at h
      cases h
    · rw [herr] at h
      cases h
      refine ⟨rfl, ?_⟩
      have hafter : World.records (((w.withCall (.exportKey name)).withStore (m.withSecret secret)
          d).withStore (m.without secret.name) d') = .ok (m.without secret.name) := hd'.1
      rw [hafter, ha.2.1, Except.ok.injEq, Store.Records.without_eq_self_iff ha.2.2.1]
      constructor
      · rintro hno ⟨secret', m', other, ha', hu⟩
        obtain ⟨rfl, rfl⟩ := ha.unique ha'
        exact hno other hu
      · exact fun hno other hu => hno ⟨secret, m, other, ha, hu⟩
  · have ha' : ∀ secret m, ¬ Admits vault name w secret m := fun secret m h => ha ⟨secret, m, h⟩
    obtain ⟨e', t, herr, hk, hpath, hdisk⟩ := importSecret_of_not_admits now ha'
    rw [herr] at h
    cases h
    refine ⟨hk, iff_of_true ?_ ?_⟩
    · rw [World.records, World.records, hpath, hdisk]
    · rintro ⟨secret, m, -, h, -⟩
      exact ha' secret m h

/-- A vault that exports this under every name, and does not sign. -/
def exporting (text : String) : Vault where
  exportKey _ _ := ⟨.ofSeconds 0, .ok text⟩
  sign _ _ _ _ := ⟨.ofSeconds 0, .error (.denied "")⟩

/-- A record without a key, with its group. -/
def keyless (group : String) : Store.Record :=
  ⟨"f", "c", "ed25519", "", group⟩

/-- An Ed25519 key with the name `k1` and the group `team`. -/
def teamKey : String :=
  "eyJOYW1lIjoiazEiLCJGaWxlSWQiOiJmIiwiQ2FwSWQiOiJjIiwiU2VjcmV0VHlwZSI6ImVkMjU1MTkiLCJQdWJsaWNEY" ++
  "XRhIjoiQkFRRUJBUUVCQVFFQkFRRUJBUUVCQVFFQkFRRUJBUUVCQVFFQkFRRUJBUT0iLCJHcm91cCI6eyJOYW1lIjoidG" ++
  "VhbSJ9fQ=="

theorem unchanged_iff_of_broken_chain :
    (World.fresh (.ofList [("team", keyless "gone")])).Works ∧ ∃ e w',
      importSecret 0 (exporting teamKey) "k1" (World.fresh (.ofList [("team", keyless "gone")])) =
        .error e w' ∧
      w'.agent.keyring = .empty ∧
      (w'.records = .ok (.ofList [("team", keyless "gone")]) ↔ ¬ ∃ secret m other,
        Admits (exporting teamKey) "k1" (World.fresh (.ofList [("team", keyless "gone")])) secret m ∧
          m.Under other secret.name) := by
  have hw := World.works_fresh (.ofList [("team", keyless "gone")])
  have he : importSecret 0 (exporting teamKey) "k1"
      (World.fresh (.ofList [("team", keyless "gone")])) = .error (.store (.notFound "gone")) _ :=
    outcome_eq_error.1 (by decide +kernel)
  have h := unchanged_iff_of_importSecret_error hw he
  rw [World.records_fresh] at h
  exact ⟨hw, _, _, he, h⟩

/-- The chain of `k1` is broken at `team`. Taking it out takes `child` with it, which was there. -/
theorem failed_import_takes_records_out : ∃ w vault name e w', w.Works ∧
    importSecret 0 vault name w = .error e w' ∧
      w.records = .ok (.ofList [("child", keyless "k1"), ("team", keyless "gone")]) ∧
      w'.records = .ok (.ofList [("team", keyless "gone")]) := by
  refine ⟨World.fresh (.ofList [("child", keyless "k1"), ("team", keyless "gone")]),
    exporting teamKey, "k1", .store (.notFound "gone"), _, World.works_fresh _,
    outcome_eq_error.1 (by decide +kernel), World.records_fresh _, by decide +kernel⟩

end VaultAgent.Agent
