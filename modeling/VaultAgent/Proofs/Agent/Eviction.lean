import VaultAgent.Proofs.Agent.Revocation
import VaultAgent.Proofs.Keyring.Matching
import VaultAgent.Proofs.Store.Failure
import VaultAgent.Proofs.Text.Order

/-!
# What a removal does to the keyring

A removal first writes what is left of the file, and then drops the keys of the records that went, one
after the other. A record of which no key can be read is passed over, so the only thing that makes it
fail is the file (`removeSecret_effect`). From the keyring it takes the entries of exactly these keys,
whatever else has been served, by whom and for how long.
-/

namespace VaultAgent.Agent

open VaultAgent.Action
open Relation (ReflTransGen)
open Ssh (PublicKey)

variable {w w' : World} {m left : Store.Records} {name : String} {names : List String}
  {e : AgentError} {k k' : Keyring}

/-- The names are those of the records that depend on one name, in the order of their bytes; all other
records are left as they are. -/
structure Separates (m : Store.Records) (name : String) (names : List String)
    (left : Store.Records) : Prop where
  ascending : names.Pairwise fun a b => Utf8.bytes a < Utf8.bytes b
  removed : ∀ other, other ∈ names ↔ m.contains name = true ∧ m.contains other = true ∧
    ReflTransGen m.Under other name
  left : ∀ other r, left.find? other = some r ↔ m.find? other = some r ∧ other ∉ names

/-- The second keyring is the first without the keys in the records of these names. -/
structure Evicts (k k' : Keyring) (m : Store.Records) (names : List String) : Prop where
  whole : k'.poisoned = false
  gone : ∀ other ∈ names, ∀ r key, m.find? other = some r → keyOf? r = some key →
    ∀ now, key ∉ k'.liveKeys now
  kept : ∀ fingerprint slot, k'.slots.find? fingerprint = some slot ↔
    k.slots.find? fingerprint = some slot ∧
      ∀ other ∈ names, ∀ r, m.find? other = some r → keyOf? r ≠ some slot.entry.key

theorem separates_removedWith (m : Store.Records) (name : String) :
    Separates m name (m.removedWith name).names (m.leftWithout name) where
  ascending := (m.removedWith name).sorted_names.imp Utf8.bytes_lt_bytes.2
  removed other := by
    rw [Store.Records.mem_names_removedWith]
  left other r := by
    rw [Store.Records.leftWithout_eq, NameMap.find?_filter_eq_some, decide_eq_true_eq]

theorem survives_removedWith_iff {slot : Slot} : Survives (m.removedWith name) slot ↔
    ∀ other ∈ (m.removedWith name).names, ∀ r, m.find? other = some r →
      keyOf? r ≠ some slot.entry.key := by
  simp only [Survives, find?_removedWith, and_imp]
  exact forall_congr' fun other => forall_comm

theorem evicts_of_keeps (hw : k.poisoned = false)
    (h : k.Keeps k' (Survives (m.removedWith name))) :
    Evicts k k' m (m.removedWith name).names where
  whole := h.poisoned.trans hw
  gone other ho r key hf hk now := by
    rintro ⟨slot, hs, rfl⟩
    obtain ⟨fingerprint, hslot, -⟩ := Keyring.mem_liveSlots.1 hs
    obtain ⟨-, hsurvives⟩ := (h.slots fingerprint slot).1 hslot
    exact survives_removedWith_iff.1 hsurvives other ho r hf hk
  kept fingerprint slot := by
    rw [h.slots, survives_removedWith_iff]

theorem removeSecret_eq_error (hi : w.agent.keyring.Indexed)
    (hw : w.agent.keyring.poisoned = false) (hm : w.records = .ok m)
    (h : removeSecret name w = .error e w') : ∃ fault d, e = .store fault ∧ w' = w.withStore m d ∧
      Store.WriteFails w.agent.store.path w.disk fault d := by
  cases hr : onStore (Store.remove name) (w.withStore m w.disk) with
  | ok removed t =>
    obtain ⟨k, hok, -⟩ := removeSecret_of_remove hi hw hm hr
    cases h.symm.trans hok
  | error cause t =>
    rw [removeSecret, bind_of_ok (reload_of_ok hm), bind_of_error hr] at h
    cases h
    exact remove_eq_error hr

/-- A removal fails only if the file cannot be read or cannot be written, and the keyring stays then.
Otherwise it tells which records went, and their keys have gone with them, and no others. -/
theorem removeSecret_effect {fingerprintOf : PublicKey → String}
    (ha : Keyring.Arises fingerprintOf w.agent.keyring) (hw : w.agent.keyring.poisoned = false)
    (name : String) :
    (∀ e, w.records = .error e → removeSecret name w = .error (.store e) w) ∧
    ∀ m, w.records = .ok m →
      (∀ e w', removeSecret name w = .error e w' → ∃ fault d, e = .store fault ∧
        w' = w.withStore m d ∧ Store.WriteFails w.agent.store.path w.disk fault d) ∧
      ∀ names w', removeSecret name w = .ok names w' → ∃ left d k',
        w' = (w.withStore left d).withKeyring k' ∧
        (left = m ∧ d = w.disk ∨ Store.Written w.agent.store.path left d) ∧
        Separates m name names left ∧ Evicts w.agent.keyring k' m names := by
  refine ⟨fun e he => ?_, fun m hm => ⟨fun e w' h => ?_, fun names w' h => ?_⟩⟩
  · rw [removeSecret, bind_of_error (reload_of_error he)]
  · exact removeSecret_eq_error ha.indexed hw hm h
  · obtain ⟨u, t, hreload, hrest⟩ := bind_eq_ok.1 h
    obtain ⟨removed, t', hr, -⟩ := bind_eq_ok.1 hrest
    cases (reload_of_ok hm).symm.trans hreload
    obtain ⟨k', hok, hkeep⟩ := removeSecret_of_remove ha.indexed hw hm hr
    obtain ⟨rfl, d, rfl, hwritten⟩ := remove_eq_ok hr
    cases h.symm.trans hok
    exact ⟨_, d, k', rfl, hwritten.imp_right Store.find_of_replaceFile,
      separates_removedWith m name, evicts_of_keeps hw hkeep⟩

/-- `a` and `b` are each other's group and `c` hangs from `b`, but only the public data of `a` are a key:
those of `b` are not in base64, and those of `c` are empty. `d` is a root with another key. -/
def damaged : Store.Records :=
  .ofList [("a", { onesRecord with group := "b" }), ("b", ⟨"", "", "", "%", "a"⟩), ("c", .plain "b"),
    ("d", twosRecord)]

def oneRecord : Store.Records :=
  .ofList [("a", onesRecord)]

/-- A keyring with the keys of `a` and `d`. -/
def twoKeys : Keyring :=
  (Keyring.empty.withEntry (Keyring.plainEntry 1 "a" none)).withEntry
    (Keyring.plainEntry 2 "d" none)

theorem steady_twoKeys : twoKeys.Steady :=
  (Keyring.Steady.empty.withEntry _).withEntry _

theorem arises_twoKeys : Keyring.Arises PublicKey.fingerprint twoKeys := by
  have hadd {k : Keyring} (ha : Keyring.Arises PublicKey.fingerprint k) (hk : k.Steady) (b : UInt8)
      (comment : String) :
      Keyring.Arises PublicKey.fingerprint (k.withEntry (Keyring.plainEntry b comment none)) := by
    obtain ⟨replaced, hadd⟩ := hk.add (e := Keyring.plainEntry b comment none) 0 rfl
    have hcall := ha.call (.signing []) 0 [] (.add 0 (Keyring.plainEntry b comment none))
    have hafter := after_of_ok hadd
    exact hafter ▸ hcall
  exact hadd (hadd (.new _) .empty 1 "a") (Keyring.Steady.empty.withEntry _) 2 "d"

theorem plainKeys_mem_twoKeys :
    Keyring.plainKey 1 ∈ twoKeys.keys ∧ Keyring.plainKey 2 ∈ twoKeys.keys := by
  have hne : (Keyring.plainKey 1).fingerprint ≠ (Keyring.plainKey 2).fingerprint := by
    decide +kernel
  have hfirst := Keyring.Steady.empty.withEntry (Keyring.plainEntry 1 "a" none)
  refine ⟨hfirst.mem_keys_withEntry.2 (.inr ⟨?_, hne⟩), hfirst.mem_keys_withEntry.2 (.inl rfl)⟩
  exact Keyring.Steady.empty.mem_keys_withEntry.2 (.inl rfl)

/-- An agent that serves the two keys, on some disk. -/
def serving (disk : Disk) : World :=
  ⟨⟨⟨Store.plainPath, .empty⟩, twoKeys, ⟨"agent.sock"⟩, .ofSeconds 30⟩, disk, []⟩

theorem names_removedWith_damaged : (damaged.removedWith "a").names = ["a", "b", "c"] := by
  decide +kernel

theorem keyOf?_damaged {name : String} {r : Store.Record} (hn : name ∈ ["a", "b", "c"])
    (hr : damaged.find? name = some r) : keyOf? r ≠ some (Keyring.plainKey 2) := by
  have hall : ∀ name ∈ ["a", "b", "c"],
      (damaged.find? name).bind keyOf? ≠ some (Keyring.plainKey 2) := by decide +kernel
  have hname := hall name hn
  rwa [hr] at hname

theorem records_serving_damaged : (serving (Store.diskWith damaged)).records = .ok damaged :=
  (Store.holds_diskWith damaged).1

theorem removeSecret_serving_damaged : ∃ w',
    removeSecret "a" (serving (Store.diskWith damaged)) = .ok ["a", "b", "c"] w' := by
  obtain ⟨d, k, hr, -⟩ := removeSecret_of_works (w := serving (Store.diskWith damaged)) steady_twoKeys
    (Store.holds_diskWith damaged).2 records_serving_damaged "a"
  rw [names_removedWith_damaged] at hr
  exact ⟨_, hr⟩

theorem records_serving_stuckDisk :
    (serving (Store.stuckDisk oneRecord)).records = .error (.io (.fault "I/O error")) := by
  decide +kernel

theorem records_serving_blockedDisk :
    (serving (Store.blockedDisk oneRecord)).records = .ok oneRecord := by
  decide +kernel

theorem removeSecret_serving_blockedDisk : ∃ w',
    removeSecret "a" (serving (Store.blockedDisk oneRecord)) =
      .error (.store (.io .isDirectory)) w' :=
  ⟨_, outcome_eq_error.1 (by decide +kernel)⟩

/-- The removal of `a` takes `b` and `c` along. It fails on a disk where the file cannot be read, and on
one where nothing can be written beside it. -/
theorem removeSecret_effect_of_damaged :
    Keyring.Arises PublicKey.fingerprint twoKeys ∧ twoKeys.poisoned = false ∧
    Keyring.plainKey 1 ∈ twoKeys.liveKeys 0 ∧
    (∃ w', (serving (Store.diskWith damaged)).records = .ok damaged ∧
      removeSecret "a" (serving (Store.diskWith damaged)) = .ok ["a", "b", "c"] w' ∧
      Keyring.plainKey 1 ∉ w'.agent.keyring.liveKeys 0 ∧
      Keyring.plainKey 2 ∈ w'.agent.keyring.liveKeys 0) ∧
    (∃ fault, (serving (Store.stuckDisk oneRecord)).records = .error fault ∧
      removeSecret "a" (serving (Store.stuckDisk oneRecord)) =
        .error (.store fault) (serving (Store.stuckDisk oneRecord))) ∧
    ∃ e w', (serving (Store.blockedDisk oneRecord)).records = .ok oneRecord ∧
      removeSecret "a" (serving (Store.blockedDisk oneRecord)) = .error e w' ∧
      w'.agent.keyring = twoKeys := by
  have ha := arises_twoKeys
  have hw := steady_twoKeys.whole
  refine ⟨ha, hw, ?_, ?_, ?_, ?_⟩
  · rw [steady_twoKeys.liveKeys_eq]
    exact plainKeys_mem_twoKeys.1
  · have hm := records_serving_damaged
    obtain ⟨w', hr⟩ := removeSecret_serving_damaged
    obtain ⟨-, heffect⟩ := removeSecret_effect (w := serving (Store.diskWith damaged)) ha hw "a"
    obtain ⟨left, d, k', rfl, -, -, hevicts⟩ := (heffect damaged hm).2 _ _ hr
    refine ⟨_, hm, hr, ?_, ?_⟩
    · exact hevicts.gone "a" (by decide) { onesRecord with group := "b" } (Keyring.plainKey 1) rfl
        (by decide +kernel) 0
    · obtain ⟨fingerprint, slot, hf, hkey⟩ := plainKeys_mem_twoKeys.2
      have hkept := (hevicts.kept fingerprint slot).2
        ⟨hf, fun other ho r hr hk => keyOf?_damaged ho hr (hkey ▸ hk)⟩
      exact ⟨slot, Keyring.mem_liveSlots.2 ⟨fingerprint, hkept, steady_twoKeys.isLive hf⟩, hkey⟩
  · have hm := records_serving_stuckDisk
    exact ⟨_, hm, (removeSecret_effect (w := serving _) ha hw "a").1 _ hm⟩
  · have hm := records_serving_blockedDisk
    obtain ⟨w', hr⟩ := removeSecret_serving_blockedDisk
    obtain ⟨-, heffect⟩ := removeSecret_effect (w := serving (Store.blockedDisk oneRecord)) ha hw "a"
    obtain ⟨fault, d, -, rfl, -⟩ := (heffect oneRecord hm).1 _ _ hr
    exact ⟨_, _, hm, hr, rfl⟩

end VaultAgent.Agent
