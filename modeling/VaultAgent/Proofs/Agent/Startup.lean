import VaultAgent.Proofs.Agent.Agreement

/-!
# Starting again

A start fails for all keys if one record does not resolve or has no key. What the agent itself does to
its file never brings that about: it keeps the records servable (`Startable.after`), so a start
succeeds after any calls if it did before (`starts_after_calls`).
-/

namespace VaultAgent.Agent

open VaultAgent.Action
open Ssh (PublicKey)

variable {w w' : World} {m : Store.Records} {now n : Nat} {name : String} {key : PublicKey}
  {secret : Secret} {all : List Secret} {vault : Vault}

/-! ## Whole keyrings -/

theorem serveSecret_of_whole (now : Nat) (hk : w.agent.keyring.poisoned = false)
    (h : PublicKey.ofLineBytes secret.publicData = .ok key) :
    ∃ k, serveSecret now secret w = .ok () (w.withKeyring k) ∧ k.poisoned = false := by
  obtain ⟨b, k, ha, hw⟩ := Keyring.add_of_whole (e := entryFor w.agent.timeout secret key) hk rfl now
  exact ⟨k, serveSecret_of_add h ha, hw⟩

theorem serveSecrets_of_whole (now : Nat) (hk : w.agent.keyring.poisoned = false)
    (h : HaveKeys all) :
    ∃ k, serveSecrets now all w = .ok () (w.withKeyring k) ∧ k.poisoned = false := by
  induction all generalizing w with
  | nil => exact ⟨w.agent.keyring, rfl, hk⟩
  | cons secret rest ih =>
    obtain ⟨⟨key, hkey⟩, hrest⟩ := List.forall_mem_cons.1 h
    obtain ⟨k, hs, hw⟩ := serveSecret_of_whole now hk hkey
    obtain ⟨k', hs', hw'⟩ := ih (w := w.withKeyring k) hw hrest
    refine ⟨k', ?_, hw'⟩
    rw [serveSecrets, bind_of_ok hs]
    exact hs'

theorem serveStore_of_whole (now : Nat) (hk : w.agent.keyring.poisoned = false)
    (hw : w.records = .ok m) (hm : Servable m) : ∃ n k,
    serveStore now w = .ok n ((w.withStore m w.disk).withKeyring k) ∧ k.poisoned = false := by
  obtain ⟨all, hall⟩ := hm.resolves.exists_secrets
  obtain ⟨k, hs, hwhole⟩ := serveSecrets_of_whole (w := w.withStore m w.disk) now hk
    ((servable_iff hall).1 hm)
  exact ⟨all.length, k, serveStore_of_serveSecrets hw hall hs, hwhole⟩

theorem dropKeys_of_whole (hk : w.agent.keyring.poisoned = false)
    (rs : List (String × Store.Record)) :
    ∃ k, dropKeys rs w = .ok () (w.withKeyring k) ∧ k.poisoned = false := by
  induction rs generalizing w with
  | nil => exact ⟨w.agent.keyring, rfl, hk⟩
  | cons e rest ih =>
    obtain ⟨name, r⟩ := e
    rw [dropKeys]
    cases hr : keyOf? r with
    | none => exact ih hk
    | some key =>
      obtain ⟨b, k, hrem, hw⟩ : ∃ b k, Keyring.remove key w.agent.keyring = .ok b k ∧
          k.poisoned = false := by
        rcases Keyring.remove_of_whole hk key with ⟨slot, -, -, hrem⟩ | ⟨-, hrem⟩
        · exact ⟨true, _, hrem, hk⟩
        · exact ⟨false, _, hrem, hk⟩
      obtain ⟨k', hd, hw'⟩ := ih (w := w.withKeyring k) hw
      exact ⟨k', (bind_of_ok (onKeyring_of_ok hrem)).trans hd, hw'⟩

/-! ## What every call keeps -/

/-- The keyring is whole, the file works, and the records in it can be served. -/
structure Startable (path : Path) (w : World) (m : Store.Records) : Prop where
  path_eq : w.agent.store.path = path
  whole : w.agent.keyring.poisoned = false
  holds : Store.Holds path m w.disk
  servable : Servable m

namespace Startable

variable {path : Path}

theorem load (h : Startable path w m) (now : Nat) : Startable path (Call.load.after now w) m := by
  obtain ⟨rfl, hk, hh, hm⟩ := h
  obtain ⟨n, k, hs, hw⟩ := serveStore_of_whole now hk hh.1 hm
  have hafter : Call.load.after now w = (w.withStore m w.disk).withKeyring k := after_of_ok hs
  rw [hafter]
  exact ⟨rfl, hw, hh, hm⟩

theorem remove (h : Startable path w m) (now : Nat) (name : String) :
    Startable path ((Call.remove name).after now w) (m.leftWithout name) := by
  obtain ⟨rfl, hk, hh, hm⟩ := h
  obtain ⟨d, hd, hr⟩ := removeSecret_of_dropKeys hh.2 hh.1 name
  obtain ⟨k, hdrop, hw⟩ := dropKeys_of_whole (w := w.withStore (m.leftWithout name) d) hk
    (m.removedWith name).toList
  have hafter : (Call.remove name).after now w = (w.withStore (m.leftWithout name) d).withKeyring k :=
    after_of_ok (hr k hdrop)
  rw [hafter]
  exact ⟨rfl, hw, hd, hm.leftWithout name⟩

/-- What an import adds to the file has been served, so it resolves and has a key. -/
theorem importKey (h : Startable path w m) (now : Nat) (vault : Vault) (name : String) :
    ∃ m', Startable path ((Call.importKey vault name).after now w) m' := by
  obtain ⟨rfl, hk, hh, hm⟩ := h
  by_cases hadm : ∃ secret m, Admits vault name w secret m
  · obtain ⟨secret, m', hadm⟩ := hadm
    obtain rfl := Except.ok.inj (hh.1.symm.trans hadm.2.1)
    obtain ⟨d, w₁, hd, rfl, ⟨stored, t, hn, hok⟩ | ⟨e, d', herr, hd'⟩⟩ :=
      importSecret_of_admits now hh.2 hadm
    · -- The secret was found and its key was read, or it would not have been served.
      obtain ⟨hfound, hserve⟩ := serveSecret_of_serveNamed hn
      obtain ⟨key, b, k, hkey, hadd, rfl⟩ := add_of_serveSecret hserve
      have hafter : (Call.importKey vault name).after now w = _ := after_of_ok hok
      rw [hafter]
      refine ⟨_, rfl, ?_, hd, (hm.withSecret hadm.2.2 hfound hkey).1⟩
      obtain ⟨b', k', hadd', hw⟩ := Keyring.add_of_whole (e := entryFor w.agent.timeout stored key) hk rfl now
      cases hadd.symm.trans hadd'
      exact hw
    · have hafter : (Call.importKey vault name).after now w = _ := after_of_error herr
      rw [hafter]
      exact ⟨_, rfl, hk, hd', hm.without secret.name⟩
  · obtain ⟨e, t, herr, hkeyring, hpath, hdisk⟩ :=
      importSecret_of_not_admits now fun secret m hadm' => hadm ⟨secret, m, hadm'⟩
    have hafter : (Call.importKey vault name).after now w = t := after_of_error herr
    rw [hafter]
    exact ⟨m, hpath, hkeyring ▸ hk, hdisk ▸ hh, hm⟩

theorem after (h : Startable path w m) (now : Nat) (c : Call) :
    ∃ m', Startable path (c.after now w) m' := by
  cases c with
  | load => exact ⟨m, h.load now⟩
  | importKey vault name => exact h.importKey now vault name
  | remove name => exact ⟨_, h.remove now name⟩

theorem afterCalls (h : Startable path w m) (calls : List (Nat × Call)) :
    ∃ m', Startable path (afterCalls w calls) m' := by
  induction calls generalizing w m with
  | nil => exact ⟨m, h⟩
  | cons c rest ih =>
    obtain ⟨m', h'⟩ := h.after c.1 c.2
    exact ih h'

end Startable

/-! ## Starts -/

/-- A start from the file succeeds, whatever agent with a whole keyring it is. -/
def Starts (path : Path) (d : Disk) : Prop :=
  ∀ now (w : World), w.agent.store.path = path → w.disk = d → w.agent.keyring.poisoned = false →
    ∃ n w', serveStore now w = .ok n w'

theorem Startable.starts {path : Path} (h : Startable path w m) : Starts path w.disk := by
  intro now v hpath hdisk hk
  have hm : v.records = .ok m := by
    rw [World.records, hpath, hdisk]
    exact h.holds.1
  obtain ⟨n, k, hs, -⟩ := serveStore_of_whole now hk hm h.servable
  exact ⟨n, _, hs⟩

/-- If the keys in a file could be served, they still can after any calls of the agent, by itself and by
any other agent. -/
theorem starts_after_calls (hk : w.agent.keyring.poisoned = false) (hw : w.Works)
    (hs : serveStore now w = .ok n w') (calls : List (Nat × Call)) :
    (∀ later, ∃ n' t, serveStore later (afterCalls w calls) = .ok n' t) ∧
      Starts w.agent.store.path (afterCalls w calls).disk := by
  obtain ⟨m, hm, hservable⟩ := servable_of_serveStore hs
  have hstart : Startable w.agent.store.path w m := ⟨rfl, hk, ⟨hm, hw⟩, hservable⟩
  obtain ⟨m', h'⟩ := hstart.afterCalls calls
  exact ⟨fun later => h'.starts later _ h'.path_eq rfl h'.whole, h'.starts⟩

/-- A key is imported twice under a group, and the group is removed. -/
def importsAndRemoval : List (Nat × Call) :=
  [(1, .importKey (exporting teamKey) "k1"), (2, .importKey (exporting teamKey) "k1"),
    (3, .remove "team"), (4, .load)]

theorem starts_after_calls_of_removed_group :
    (World.fresh (.ofList [("team", onesRecord)])).agent.keyring.poisoned = false ∧
      (World.fresh (.ofList [("team", onesRecord)])).Works ∧ ∃ w',
        serveStore 0 (World.fresh (.ofList [("team", onesRecord)])) = .ok 1 w' ∧
        (∀ later, ∃ n t, serveStore later
          (afterCalls (World.fresh (.ofList [("team", onesRecord)])) importsAndRemoval) = .ok n t) ∧
        Starts Store.plainPath
          (afterCalls (World.fresh (.ofList [("team", onesRecord)])) importsAndRemoval).disk := by
  have hw := World.works_fresh (.ofList [("team", onesRecord)])
  have hs : serveStore 0 (World.fresh (.ofList [("team", onesRecord)])) = .ok 1 _ :=
    outcome_eq_ok.1 (by decide +kernel)
  exact ⟨rfl, hw, _, hs, starts_after_calls rfl hw hs importsAndRemoval⟩

end VaultAgent.Agent
