import VaultAgent.Proofs.Agent.Reached
import Mathlib.Data.List.Induction

/-!
# Store and keyring

A world `Agrees` if the live keys are those of the records in the file. A start that succeeds leaves
records that can all be served, and every call keeps them so (`Sound.after`). It keeps the agreement
too unless it is `Harmful`: a removal may take a key from the keyring that a record which stays also
has, and an import that fails may take out records whose keys stay. Besides that, no two keys of the
records may have one fingerprint (`agrees_throughout_iff`).
-/

namespace VaultAgent.Agent

open VaultAgent.Action
open Ssh (PublicKey)

variable {w w' : World} {m : Store.Records} {now n : Nat} {name : String} {key : PublicKey}
  {secret : Secret} {vault : Vault}

/-- The live keys are, now and later, those of the records in the file. -/
def Agrees (w : World) : Prop :=
  ∃ m, w.records = .ok m ∧ ∀ time, w.agent.keyring.liveKeys time = keysOf m

/-- The keys of the records in the file have fingerprints of their own. -/
def KeysApart (w : World) : Prop :=
  ∃ m, w.records = .ok m ∧ (keysOf m).InjOn PublicKey.fingerprint

/-- The call is an import that fails after the secret was stored while there were records grouped
under its name, or a removal of a record whose key is also that of a record that stays. -/
def Call.Harmful (now : Nat) (w : World) : Call → Prop
  | load => False
  | importKey vault name => (∃ e, (importSecret now vault name).outcome w = .error e) ∧
      ∃ secret m other, Admits vault name w secret m ∧ m.Under other secret.name
  | remove name => ∃ m key, w.records = .ok m ∧ key ∈ keysOf (m.removedWith name) ∧
      key ∈ keysOf (m.leftWithout name)

/-- The world after several calls. -/
def afterCalls (w : World) (calls : List (Nat × Call)) : World :=
  calls.foldl (fun w c => c.2.after c.1 w) w

/-! ## What every call keeps -/

/-- The keyring is steady, the file works, and the records in it can be served. -/
structure Sound (w : World) (m : Store.Records) : Prop where
  steady : w.agent.keyring.Steady
  holds : Store.Holds w.agent.store.path m w.disk
  servable : Servable m

theorem Sound.agrees_iff (h : Sound w m) : Agrees w ↔ w.agent.keyring.keys = keysOf m := by
  constructor
  · rintro ⟨m', hm, hall⟩
    cases h.holds.1.symm.trans hm
    rw [← h.steady.liveKeys_eq 0, hall]
  · exact fun hk => ⟨m, h.holds.1, fun time => (h.steady.liveKeys_eq time).trans hk⟩

theorem Sound.keysApart_iff (h : Sound w m) :
    KeysApart w ↔ (keysOf m).InjOn PublicKey.fingerprint := by
  constructor
  · rintro ⟨m', hm, hinj⟩
    cases h.holds.1.symm.trans hm
    exact hinj
  · exact fun hinj => ⟨m, h.holds.1, hinj⟩

theorem Servable.without (h : Servable m) (name : String) : Servable (m.without name) :=
  ⟨h.resolves.without name, fun other r hf => h.keys other r (Store.Records.find?_without.1 hf).1⟩

theorem Servable.leftWithout (h : Servable m) (name : String) : Servable (m.leftWithout name) := by
  unfold Store.Records.leftWithout
  split
  · exact h.without name
  · exact h

/-! ## The keys of changed records -/

theorem keysOf_insert {r : Store.Record} (hn : m.contains name = false)
    (hk : keyOf? r = some key) : keysOf (m.insert name r) = insert key (keysOf m) := by
  ext other
  constructor
  · rintro ⟨name', r', hf, hk'⟩
    rw [NameMap.find?_insert] at hf
    split at hf
    · cases hf
      exact .inl (Option.some.inj (hk'.symm.trans hk))
    · exact .inr ⟨name', r', hf, hk'⟩
  · rintro (rfl | ⟨name', r', hf, hk'⟩)
    · exact ⟨name, r, by rw [NameMap.find?_insert, if_pos rfl], hk⟩
    · have hne : name ≠ name' := by
        rintro rfl
        simp [NameMap.contains, hf] at hn
      exact ⟨name', r', by rw [NameMap.find?_insert, if_neg hne, hf], hk'⟩

/-- A record is removed with a name, or stays. -/
theorem mem_keysOf_iff (name : String) : key ∈ keysOf m ↔
    key ∈ keysOf (m.removedWith name) ∨ key ∈ keysOf (m.leftWithout name) := by
  unfold Store.Records.removedWith Store.Records.leftWithout
  split
  · constructor
    · rintro ⟨other, r, hf, hk⟩
      by_cases hu : Relation.ReflTransGen m.Under other name
      · exact .inl ⟨other, r, Store.Records.find?_dependants.2 ⟨hf, hu⟩, hk⟩
      · exact .inr ⟨other, r, Store.Records.find?_without.2 ⟨hf, hu⟩, hk⟩
    · rintro (⟨other, r, hf, hk⟩ | ⟨other, r, hf, hk⟩)
      · exact ⟨other, r, (Store.Records.find?_dependants.1 hf).1, hk⟩
      · exact ⟨other, r, (Store.Records.find?_without.1 hf).1, hk⟩
  · simp [keysOf]

theorem Servable.withSecret {stored : Secret} (h : Servable m) (ha : m.Accepts secret)
    (hs : (m.withSecret secret).secret secret.name = .ok stored)
    (hk : PublicKey.ofLineBytes stored.publicData = .ok key) :
    Servable (m.withSecret secret) ∧ keysOf (m.withSecret secret) = insert key (keysOf m) := by
  obtain ⟨-, r, hf, hp⟩ := Store.Records.find?_of_secret hs
  rw [Store.Records.withSecret, NameMap.find?_insert, if_pos rfl] at hf
  obtain rfl := Option.some.inj hf
  have hkey : keyOf? (.ofSecret secret) = some key := keyOf?_eq_some.2 ⟨_, hp, hk⟩
  refine ⟨⟨h.resolves.insert ha.1 hs, fun other r' hf' => ?_⟩, keysOf_insert ha.1 hkey⟩
  rw [Store.Records.withSecret, NameMap.find?_insert] at hf'
  split at hf'
  · cases hf'
    exact ⟨key, hkey⟩
  · exact h.keys other r' hf'

/-- Only a root is grouped under a name that is not stored: under the empty one, as all records are. -/
theorem Servable.without_of_under {other : String} (h : Servable m) (hn : m.contains name = false)
    (hu : m.Under other name) : keysOf (m.without name) = ∅ ∧ (keysOf m).Nonempty := by
  obtain rfl : name = "" := (h.resolves.contains_group hu).resolve_right (by simp [hn])
  rw [h.resolves.without_root]
  obtain ⟨r, hf, -⟩ := hu
  obtain ⟨key, hk⟩ := h.keys other r hf
  exact ⟨by simp [keysOf], key, other, r, hf, hk⟩

/-! ## One call -/

/-- The call leaves a sound world, in which store and keyring agree if they did before, the keys are
apart and the call was not harmful. -/
def Steps (now : Nat) (w : World) (c : Call) : Prop :=
  ∃ m, Sound (c.after now w) m ∧
    (Agrees w → (Agrees (c.after now w) ↔ KeysApart (c.after now w) ∧ ¬ c.Harmful now w))

theorem Sound.load (h : Sound w m) : Steps now w .load := by
  obtain ⟨n, k, hs, hg⟩ := serveStore_of_servable now h.steady h.holds.1 h.servable
  have hw : Call.load.after now w = (w.withStore m w.disk).withKeyring k := after_of_ok hs
  have hsound : Sound (Call.load.after now w) m := hw ▸ ⟨hg.steady, h.holds, h.servable⟩
  refine ⟨m, hsound, fun ha => ?_⟩
  have hcover : ∀ key ∈ w.agent.keyring.keys, ∃ other ∈ keysOf m,
      other.fingerprint = key.fingerprint := fun key hk => ⟨key, h.agrees_iff.1 ha ▸ hk, rfl⟩
  rw [hsound.agrees_iff, hsound.keysApart_iff, hw]
  constructor
  · exact fun hkeys => ⟨(hg.keys_eq_iff.1 hkeys).1, not_false⟩
  · exact fun ⟨hinj, _⟩ => hg.keys_eq_iff.2 ⟨hinj, hcover⟩

theorem Sound.remove (h : Sound w m) (name : String) : Steps now w (.remove name) := by
  obtain ⟨d, k, hr, hd, hkeep⟩ := removeSecret_of_works h.steady h.holds.2 h.holds.1 name
  have hw : (Call.remove name).after now w = (w.withStore (m.leftWithout name) d).withKeyring k :=
    after_of_ok hr
  have hsound : Sound ((Call.remove name).after now w) (m.leftWithout name) :=
    hw ▸ ⟨hkeep.steady h.steady, hd, h.servable.leftWithout name⟩
  refine ⟨_, hsound, fun ha => ?_⟩
  have hkeys (key : PublicKey) : key ∈ k.keys ↔
      key ∈ keysOf m ∧ key ∉ keysOf (m.removedWith name) := by
    rw [mem_keys_of_survives hkeep, ← h.agrees_iff.1 ha]
  rw [hsound.agrees_iff, hsound.keysApart_iff, hw]
  constructor
  · intro hleft
    have hinj := hleft ▸ (hkeep.steady h.steady).injOn
    refine ⟨hinj, ?_⟩
    rintro ⟨m', key, hm, hr, hl⟩
    cases h.holds.1.symm.trans hm
    exact ((hkeys key).1 (hleft ▸ hl)).2 hr
  · rintro ⟨-, hno⟩
    ext key
    refine (hkeys key).trans ?_
    rw [mem_keysOf_iff name]
    constructor
    · exact fun ⟨hmem, hr⟩ => hmem.resolve_left hr
    · exact fun hl => ⟨.inr hl, fun hr => hno ⟨m, key, h.holds.1, hr, hl⟩⟩

theorem Sound.congr (h : Sound w m) (hk : w'.agent.keyring = w.agent.keyring)
    (hp : w'.agent.store.path = w.agent.store.path) (hd : w'.disk = w.disk) : Sound w' m :=
  ⟨hk ▸ h.steady, hp ▸ hd ▸ h.holds, h.servable⟩

theorem Sound.importKey_refused (h : Sound w m)
    (hno : ∀ secret m, ¬ Admits vault name w secret m) : Steps now w (.importKey vault name) := by
  obtain ⟨e, t, herr, hk, hp, hd⟩ := importSecret_of_not_admits now hno
  have hw : (Call.importKey vault name).after now w = t := after_of_error herr
  have hsound : Sound ((Call.importKey vault name).after now w) m := hw ▸ h.congr hk hp hd
  refine ⟨m, hsound, fun ha => ?_⟩
  have hkeys := h.agrees_iff.1 ha
  rw [hsound.agrees_iff, hsound.keysApart_iff, hw, hk]
  refine iff_of_true hkeys ⟨hkeys ▸ h.steady.injOn, ?_⟩
  rintro ⟨-, secret, m', other, hm', -⟩
  exact hno secret m' hm'

theorem Sound.importKey_served {stored : Secret} {d : Disk} (h : Sound w m)
    (hadm : Admits vault name w secret m)
    (hd : Store.Holds w.agent.store.path (m.withSecret secret) d)
    (hn : serveNamed now secret.name
      ((w.withCall (.exportKey name)).withStore (m.withSecret secret) d) = .ok stored w')
    (hok : importSecret now vault name w = .ok stored w') :
    Steps now w (.importKey vault name) := by
  have hw : (Call.importKey vault name).after now w = w' := after_of_ok hok
  obtain ⟨hsec, key, hkey, rfl⟩ := serveNamed_eq_ok
    (w := (w.withCall (.exportKey name)).withStore (m.withSecret secret) d) h.steady hn
  obtain ⟨hservable, hkeysOf⟩ := h.servable.withSecret hadm.2.2 hsec hkey
  have hsound : Sound ((Call.importKey vault name).after now w) (m.withSecret secret) :=
    hw ▸ ⟨h.steady.withEntry _, hd, hservable⟩
  refine ⟨_, hsound, fun ha => ?_⟩
  have hharmless : ¬ (Call.importKey vault name).Harmful now w := by
    rintro ⟨⟨e, herr⟩, -⟩
    rw [outcome_of_ok hok] at herr
    cases herr
  rw [hsound.agrees_iff, hsound.keysApart_iff, hw, hkeysOf, ← h.agrees_iff.1 ha,
    and_iff_left hharmless]
  exact h.steady.keys_withEntry_eq_iff

theorem Sound.importKey_takenBack {e : AgentError} {d d' : Disk} (h : Sound w m)
    (hadm : Admits vault name w secret m)
    (herr : importSecret now vault name w = .error e
      (((w.withCall (.exportKey name)).withStore (m.withSecret secret) d).withStore
        (m.without secret.name) d'))
    (hd : Store.Holds w.agent.store.path (m.without secret.name) d') :
    Steps now w (.importKey vault name) := by
  have hw : (Call.importKey vault name).after now w = _ := after_of_error herr
  have hsound : Sound ((Call.importKey vault name).after now w) (m.without secret.name) :=
    hw ▸ ⟨h.steady, hd, h.servable.without _⟩
  refine ⟨_, hsound, fun ha => ?_⟩
  have hkeys : keysOf m = w.agent.keyring.keys := (h.agrees_iff.1 ha).symm
  rw [hsound.agrees_iff, hsound.keysApart_iff, hw]
  by_cases hu : ∃ other, m.Under other secret.name
  · -- All records go, but their keys stay.
    obtain ⟨other, hu⟩ := hu
    obtain ⟨hnone, hsome⟩ := h.servable.without_of_under hadm.2.2.1 hu
    refine iff_of_false ?_ fun ⟨_, hno⟩ => hno ?_
    · rw [hnone]
      exact fun hempty => (hkeys ▸ hsome).ne_empty hempty
    · exact ⟨⟨e, outcome_of_error herr⟩, secret, m, other, hadm, hu⟩
  · have hall : m.without secret.name = m :=
      (Store.Records.without_eq_self_iff hadm.2.2.1).2 fun other h => hu ⟨other, h⟩
    rw [hall]
    refine iff_of_true hkeys.symm ⟨hkeys ▸ h.steady.injOn, ?_⟩
    rintro ⟨-, secret', m', other, hadm', hu'⟩
    obtain ⟨rfl, rfl⟩ := hadm.unique hadm'
    exact hu ⟨other, hu'⟩

theorem Sound.importKey (h : Sound w m) (vault : Vault) (name : String) :
    Steps now w (.importKey vault name) := by
  by_cases hadm : ∃ secret m, Admits vault name w secret m
  · obtain ⟨secret, m', hadm⟩ := hadm
    obtain rfl := Except.ok.inj (h.holds.1.symm.trans hadm.2.1)
    obtain ⟨d, w₁, hd, rfl, ⟨stored, t, hn, hok⟩ | ⟨e, d', herr, hd'⟩⟩ :=
      importSecret_of_admits now h.holds.2 hadm
    · exact h.importKey_served hadm hd hn hok
    · exact h.importKey_takenBack hadm herr hd'
  · exact h.importKey_refused fun secret m hm => hadm ⟨secret, m, hm⟩

theorem Sound.steps (h : Sound w m) (now : Nat) (c : Call) : Steps now w c := by
  cases c with
  | load => exact h.load
  | importKey vault name => exact h.importKey vault name
  | remove name => exact h.remove name

/-! ## All calls -/

theorem Sound.afterCalls (h : Sound w m) (calls : List (Nat × Call)) :
    ∃ m', Sound (afterCalls w calls) m' := by
  induction calls generalizing w m with
  | nil => exact ⟨m, h⟩
  | cons c rest ih =>
    obtain ⟨m', hm', -⟩ := h.steps c.1 c.2
    exact ih hm'

theorem afterCalls_concat (w : World) (calls : List (Nat × Call)) (c : Nat × Call) :
    afterCalls w (calls ++ [c]) = c.2.after c.1 (afterCalls w calls) := by
  simp [afterCalls]

/-- A start that succeeds serves all keys, unless two of them have one fingerprint. -/
theorem sound_of_serveStore (hk : w.agent.keyring = .empty) (hw : w.Works)
    (hs : serveStore now w = .ok n w') : ∃ m, Sound w' m ∧ (Agrees w' ↔ KeysApart w') := by
  have hempty : w.agent.keyring.Steady := hk ▸ .empty
  obtain ⟨m, k, hm, hservable, rfl, hg⟩ := serveStore_eq_ok hempty hs
  have hsound : Sound ((w.withStore m w.disk).withKeyring k) m := ⟨hg.steady, ⟨hm, hw⟩, hservable⟩
  refine ⟨m, hsound, ?_⟩
  have hnone : ∀ key, key ∉ w.agent.keyring.keys := by
    rw [hk]
    exact fun key ⟨name, slot, hf, _⟩ => nomatch hf
  rw [hsound.agrees_iff, hsound.keysApart_iff]
  refine hg.keys_eq_iff.trans (and_iff_left fun key hkey => ?_)
  exact absurd hkey (hnone key)

/-- After a start that succeeds, store and keyring agree through all calls if, and only if, at no time
two keys of the records have one fingerprint and no call is harmful. -/
theorem agrees_throughout_iff (hk : w.agent.keyring = .empty) (hw : w.Works)
    (hs : serveStore now w = .ok n w') (calls : List (Nat × Call)) :
    (∀ done, done <+: calls → Agrees (afterCalls w' done)) ↔
      (∀ done, done <+: calls → KeysApart (afterCalls w' done)) ∧
        ∀ done now c, done ++ [(now, c)] <+: calls → ¬ c.Harmful now (afterCalls w' done) := by
  obtain ⟨m, hsound, hstart⟩ := sound_of_serveStore hk hw hs
  -- By the last call: it keeps up an agreement exactly if it does no harm, and says nothing of what
  -- comes once the agreement is lost.
  induction calls using List.reverseRecOn with
  | nil => simpa [afterCalls] using hstart
  | append_singleton calls c ih =>
    obtain ⟨m', hm'⟩ := hsound.afterCalls calls
    obtain ⟨-, -, hstep⟩ := hm'.steps c.1 c.2
    rw [← afterCalls_concat] at hstep
    simp only [List.prefix_concat_iff]
    constructor
    · intro hall
      obtain ⟨hapart, hno⟩ := ih.1 fun done hd => hall done (.inr hd)
      obtain ⟨hlast, hlastno⟩ := (hstep (hall calls (.inr List.prefix_rfl))).1 (hall _ (.inl rfl))
      refine ⟨?_, ?_⟩
      · rintro done (rfl | hd)
        · exact hlast
        · exact hapart done hd
      · rintro done now' c' (heq | hd)
        · obtain ⟨rfl, rfl⟩ : done = calls ∧ (now', c') = c := by simpa using heq
          exact hlastno
        · exact hno done now' c' hd
    · rintro ⟨hapart, hno⟩
      have hbefore := ih.2 ⟨fun done hd => hapart done (.inr hd),
        fun done now' c' hd => hno done now' c' (.inr hd)⟩
      rintro done (rfl | hd)
      · exact (hstep (hbefore calls List.prefix_rfl)).2
          ⟨hapart _ (.inl rfl), hno calls c.1 c.2 (.inl rfl)⟩
      · exact hbefore done hd

theorem agrees_throughout_iff_of_one_removal :
    (World.fresh (.ofList [("a", onesRecord)])).agent.keyring = .empty ∧
      (World.fresh (.ofList [("a", onesRecord)])).Works ∧ ∃ w',
        serveStore 0 (World.fresh (.ofList [("a", onesRecord)])) = .ok 1 w' ∧
        ((∀ done, done <+: [(0, Call.remove "a")] → Agrees (afterCalls w' done)) ↔
          (∀ done, done <+: [(0, Call.remove "a")] → KeysApart (afterCalls w' done)) ∧
            ∀ done now c, done ++ [(now, c)] <+: [(0, Call.remove "a")] →
              ¬ c.Harmful now (afterCalls w' done)) := by
  have hw := World.works_fresh (.ofList [("a", onesRecord)])
  have hs : serveStore 0 (World.fresh (.ofList [("a", onesRecord)])) = .ok 1 _ :=
    outcome_eq_ok.1 (by decide +kernel)
  exact ⟨rfl, hw, _, hs, agrees_throughout_iff rfl hw hs _⟩

/-- Two records have one key. When one of them is removed, the key is no longer served. -/
theorem shared_key_not_served : ∃ w w' n calls, w.agent.keyring = .empty ∧ w.Works ∧
    serveStore 0 w = .ok n w' ∧ ¬ ∀ done, done <+: calls → Agrees (afterCalls w' done) := by
  have h : (serveStore 0).outcome (World.fresh (.ofList [("a", onesRecord), ("b", onesRecord)])) =
      .ok 2 ∧ (afterCalls ((serveStore 0).after (World.fresh
        (.ofList [("a", onesRecord), ("b", onesRecord)]))) [(0, .remove "a")]).records =
          .ok (.ofList [("b", onesRecord)]) ∧
      (afterCalls ((serveStore 0).after (World.fresh
        (.ofList [("a", onesRecord), ("b", onesRecord)]))) [(0, .remove "a")]).agent.keyring.liveSlots 0 =
          [] ∧ (keyOf? onesRecord).isSome = true := by decide +kernel
  obtain ⟨hs, hrecords, hnone, hkey⟩ := h
  refine ⟨_, _, 2, [(0, .remove "a")], rfl, World.works_fresh _, outcome_eq_ok.1 hs, fun hall => ?_⟩
  obtain ⟨m, hm, hlive⟩ := hall _ List.prefix_rfl
  obtain rfl := Except.ok.inj (hrecords.symm.trans hm)
  obtain ⟨key, hkey⟩ := Option.isSome_iff_exists.1 hkey
  have hmem : key ∈ keysOf (.ofList [("b", onesRecord)]) := ⟨"b", onesRecord, rfl, hkey⟩
  rw [← hlive 0] at hmem
  obtain ⟨slot, hslot, -⟩ := hmem
  rw [hnone] at hslot
  cases hslot

end VaultAgent.Agent
