import VaultAgent.Proofs.Agent.Reached
import VaultAgent.Proofs.Keyring.Filling
import VaultAgent.Proofs.Keyring.Matching
import VaultAgent.Proofs.Protocol.Signing
import VaultAgent.Proofs.Store.Resolution

/-!
# What loading the keys does to the keyring

Loading goes through the records in the order of the bytes of their names, and stops at the first whose
public data are no key. Of the records in front of there that have one key, the last is served, and all
other entries stay as they were (`Loads`). A client that asks for a signature by a stored key then
reaches the last name that has it.
-/

namespace VaultAgent.Agent

open VaultAgent.Action
open Ssh (PublicKey)

variable {w : World} {m : Store.Records} {t : Secret} {served : List (Secret × PublicKey)}
  {left : List Secret} {e : Entry} {now later : Nat} {key : PublicKey} {name : String} {r : Store.Record}
  {stop : Option String} {timeout : Duration} {k k' : Keyring}

/-- Loading comes to the name before it stops. -/
def InFront (stop : Option String) (name : String) : Prop :=
  ∀ n ∈ stop, Utf8.bytes name < Utf8.bytes n

/-- The record has the key, and of those in front of `stop` that have it, it is the last. -/
structure IsLast (m : Store.Records) (stop : Option String) (key : PublicKey) (name : String)
    (r : Store.Record) : Prop where
  stored : m.find? name = some r
  hasKey : keyOf? r = some key
  inFront : InFront stop name
  last : ∀ other r', m.find? other = some r' → keyOf? r' = some key → InFront stop other →
    Utf8.bytes other ≤ Utf8.bytes name

/-- The entry that serves the key of a record. -/
def recordEntry (timeout : Duration) (name : String) (r : Store.Record) (key : PublicKey) : Entry where
  signer := { key, secretName := name, group := r.group, timeout }
  comment := name
  lifetime := none
  confirm := false

/-- How loading ends: with the number of the records if all have keys, or else with the fault of the
first that has none, where it stops. -/
inductive Ends (m : Store.Records) : Option String → Except AgentError Nat → Prop
  | all (h : ∀ name r, m.find? name = some r → ∃ key, keyOf? r = some key) : Ends m none (.ok m.size)
  | fault {name : String} {r : Store.Record} {bytes : List UInt8} {fault : PublicKey.LineError}
    (hf : m.find? name = some r) (hb : r.publicBytes = .ok bytes)
    (hk : PublicKey.ofLineBytes bytes = .error fault)
    (hfirst : ∀ other r', m.find? other = some r' → Utf8.bytes other < Utf8.bytes name →
      ∃ key, keyOf? r' = some key) :
    Ends m (some name) (.error (.invalidKey name fault))

theorem Ends.stop_eq_none {result : Except AgentError Nat} (h : Ends m stop result)
    (hkeys : ∀ name r, m.find? name = some r → ∃ key, keyOf? r = some key) : stop = none := by
  cases h with
  | all h => rfl
  | @fault name r bytes fault hf hb hk hfirst =>
    obtain ⟨key, hkey⟩ := hkeys name r hf
    obtain ⟨bytes', hb', hk'⟩ := keyOf?_eq_some.1 hkey
    obtain rfl := Except.ok.inj (hb.symm.trans hb')
    cases hk.symm.trans hk'

/-- The second keyring is the first with the last record of each key in front of `stop`. -/
structure Loads (k k' : Keyring) (m : Store.Records) (stop : Option String) (now : Nat)
    (timeout : Duration) : Prop where
  whole : k'.poisoned = false
  indexed : k'.Indexed
  live : ∀ later, now ≤ later → ∀ slot, slot ∈ k'.liveSlots later ↔
    (∃ name r, IsLast m stop slot.entry.key name r ∧
      slot = ⟨recordEntry timeout name r slot.entry.key, none⟩) ∨
    slot ∈ k.liveSlots later ∧
      ∀ name r, m.find? name = some r → InFront stop name → keyOf? r ≠ some slot.entry.key

/-! ## The secrets that are served -/

/-- Secrets with their keys, as they are served. -/
def entries (timeout : Duration) (served : List (Secret × PublicKey)) : List Entry :=
  served.map fun p => entryFor timeout p.1 p.2

/-- The secrets that are served are all in front of those that are left, with the keys that they have. -/
structure Serves (m : Store.Records) (served : List (Secret × PublicKey)) (left : List Secret) :
    Prop where
  lists : m.ListsAll (served.map (·.1) ++ left)
  keys : ∀ p ∈ served, PublicKey.ofLineBytes p.1.publicData = .ok p.2

/-- Where the secrets that are left begin. -/
def stopOf (left : List Secret) : Option String :=
  left.head?.map (·.name)

/-- Secrets are served one after the other, up to the first without a key. -/
theorem serveSecrets_takes (now : Nat) (hi : w.agent.keyring.Indexed)
    (hw : w.agent.keyring.poisoned = false) (all : List Secret) : ∃ served left k',
      all = served.map (·.1) ++ left ∧
      (∀ p ∈ served, PublicKey.ofLineBytes p.1.publicData = .ok p.2) ∧
      w.agent.keyring.Takes k' now (entries w.agent.timeout served) ∧
      (left = [] ∧ serveSecrets now all w = .ok () (w.withKeyring k') ∨
        ∃ t rest fault, left = t :: rest ∧ PublicKey.ofLineBytes t.publicData = .error fault ∧
          serveSecrets now all w = .error (.invalidKey t.name fault) (w.withKeyring k')) := by
  induction all generalizing w with
  | nil => exact ⟨[], [], w.agent.keyring, rfl, nofun, .nil hi hw, .inl ⟨rfl, rfl⟩⟩
  | cons t all ih =>
    cases hk : PublicKey.ofLineBytes t.publicData with
    | error fault =>
      refine ⟨[], t :: all, w.agent.keyring, rfl, nofun, .nil hi hw, .inr ⟨t, all, fault, rfl, hk, ?_⟩⟩
      rw [serveSecrets, bind_of_error (serveSecret_of_no_key hk)]
      rfl
    | ok key =>
      obtain ⟨b, k₁, ha, hw₁⟩ := Keyring.add_of_whole (e := entryFor w.agent.timeout t key) hw rfl now
      have hk₁ : (Keyring.add now (entryFor w.agent.timeout t key)).after w.agent.keyring = k₁ :=
        after_of_ok ha
      have hi₁ : k₁.Indexed := hk₁ ▸ hi.addFrom now now _
      obtain ⟨served, left, k', rfl, hkeys, htakes, hend⟩ := ih (w := w.withKeyring k₁) hi₁ hw₁
      refine ⟨(t, key) :: served, left, k', rfl, List.forall_mem_cons.2 ⟨hk, hkeys⟩, ?_, ?_⟩
      · exact .cons hi hw rfl (hk₁ ▸ htakes)
      · rw [serveSecrets, bind_of_ok (serveSecret_of_add hk ha)]
        exact hend

namespace Serves

theorem inFront_iff (h : Serves m served left) (ht : t ∈ served.map (·.1) ++ left) :
    InFront (stopOf left) t.name ↔ ∃ key, (t, key) ∈ served := by
  obtain ⟨-, hleft, hsorted⟩ := List.pairwise_append.1 h.lists.sorted
  simp only [Utf8.bytes_lt_bytes] at hleft hsorted
  have hmem : t ∈ served.map (·.1) ↔ ∃ key, (t, key) ∈ served := by simp
  rw [← hmem]
  cases left with
  | nil => simpa [InFront, stopOf] using ht
  | cons first rest =>
    have hrest := (List.pairwise_cons.1 hleft).1
    simp only [InFront, stopOf, List.head?_cons, Option.map_some, Option.mem_some_iff, forall_eq',
      Utf8.bytes_lt_bytes]
    constructor
    · intro hlt
      rcases List.mem_append.1 ht with ht | ht
      · exact ht
      · rcases List.mem_cons.1 ht with rfl | ht
        · exact absurd hlt (String.lt_irrefl _)
        · exact absurd hlt (String.lt_asymm (hrest t ht))
    · intro ht
      exact hsorted t ht first List.mem_cons_self

/-- A secret that is served has the record of its name, which is in front of those that are left. -/
theorem record (h : Serves m served left) (timeout : Duration) (hp : (t, key) ∈ served) :
    ∃ r, m.find? t.name = some r ∧ keyOf? r = some key ∧ InFront (stopOf left) t.name ∧
      entryFor timeout t key = recordEntry timeout t.name r key := by
  have hall : t ∈ served.map (·.1) ++ left := List.mem_append_left left (List.mem_map_of_mem hp)
  obtain ⟨-, r, hf, hbytes, hg⟩ := Store.Records.record_of_secret (h.lists.resolved t hall)
  refine ⟨r, hf, keyOf?_eq_some.2 ⟨_, hbytes, h.keys _ hp⟩, (h.inFront_iff hall).2 ⟨key, hp⟩, ?_⟩
  rw [entryFor, recordEntry, hg]

theorem exists_served (h : Serves m served left) (hf : m.find? name = some r)
    (hn : InFront (stopOf left) name) : ∃ t key, (t, key) ∈ served ∧ t.name = name ∧
      keyOf? r = some key := by
  obtain ⟨t, ht, rfl⟩ := (h.lists.names name).1 (NameMap.contains_eq_true.2 ⟨r, hf⟩)
  obtain ⟨key, hp⟩ := (h.inFront_iff ht).1 hn
  obtain ⟨r', hf', hk, -⟩ := h.record (.ofSeconds 0) hp
  obtain rfl := Option.some.inj (hf.symm.trans hf')
  exact ⟨t, key, hp, rfl, hk⟩

theorem sorted {before rest : List (Secret × PublicKey)} {p : Secret × PublicKey}
    (h : Serves m (before ++ p :: rest) left) :
    (∀ q ∈ before, Utf8.bytes q.1.name < Utf8.bytes p.1.name) ∧
      ∀ q ∈ rest, Utf8.bytes p.1.name < Utf8.bytes q.1.name := by
  have hsorted := List.pairwise_map.1 (List.pairwise_append.1 h.lists.sorted).1
  obtain ⟨-, hrest, hbefore⟩ := List.pairwise_append.1 hsorted
  exact ⟨fun q hq => hbefore q hq p List.mem_cons_self, (List.pairwise_cons.1 hrest).1⟩

theorem mem_entries (h : Serves m served left) : e ∈ entries timeout served ↔
    ∃ name r, m.find? name = some r ∧ keyOf? r = some e.key ∧ InFront (stopOf left) name ∧
      e = recordEntry timeout name r e.key := by
  constructor
  · intro he
    obtain ⟨⟨t, key⟩, hp, rfl⟩ := List.mem_map.1 he
    obtain ⟨r, hf, hk, hn, he⟩ := h.record timeout hp
    exact ⟨t.name, r, hf, hk, hn, he⟩
  · rintro ⟨name, r, hf, hk, hn, he⟩
    obtain ⟨t, key, hp, rfl, hkey⟩ := h.exists_served hf hn
    obtain rfl : key = e.key := Option.some.inj (hkey.symm.trans hk)
    obtain ⟨r', hf', -, -, hserved⟩ := h.record timeout hp
    obtain rfl := Option.some.inj (hf.symm.trans hf')
    exact List.mem_map.2 ⟨(t, e.key), hp, hserved.trans he.symm⟩

/-- The last entry of a key serves the last record that has it. -/
theorem isLast_of_lastOf {fingerprintOf : PublicKey → String} (h : Serves m served left)
    (hl : Keyring.LastOf fingerprintOf (entries timeout served) e) :
    ∃ name r, IsLast m (stopOf left) e.key name r ∧ e = recordEntry timeout name r e.key := by
  obtain ⟨before, rest, hes, hrest⟩ := hl
  obtain ⟨before, others, rfl, -, hes⟩ := List.map_eq_append_iff.1 hes
  obtain ⟨⟨t, key⟩, others, rfl, rfl, rfl⟩ := List.map_eq_cons_iff.1 hes
  obtain ⟨r, hf, hk, hn, he⟩ := h.record timeout
    (List.mem_append_right before (List.mem_cons_self (a := (t, key))))
  refine ⟨t.name, r, ⟨hf, hk, hn, fun other r' hf' hk' hn' => ?_⟩, he⟩
  obtain ⟨t', key', hp', rfl, hkey'⟩ := h.exists_served hf' hn'
  obtain rfl : key' = key := Option.some.inj (hkey'.symm.trans hk')
  rcases List.mem_append.1 hp' with hp' | hp'
  · exact List.le_of_lt (h.sorted.1 (t', key') hp')
  · rcases List.mem_cons.1 hp' with heq | hp'
    · rw [(Prod.mk.inj heq).1]
      exact List.le_refl _
    · exact absurd rfl (hrest (entryFor timeout t' key') (List.mem_map_of_mem hp'))

theorem lastOf_of_isLast {fingerprintOf : PublicKey → String} (h : Serves m served left)
    (hinj : (keysOf m).InjOn fingerprintOf) (hlast : IsLast m (stopOf left) e.key name r)
    (he : e = recordEntry timeout name r e.key) :
    Keyring.LastOf fingerprintOf (entries timeout served) e := by
  obtain ⟨t, key, hp, rfl, hk⟩ := h.exists_served hlast.stored hlast.inFront
  obtain rfl : key = e.key := Option.some.inj (hk.symm.trans hlast.hasKey)
  obtain ⟨before, rest, rfl⟩ := List.append_of_mem hp
  obtain ⟨r', hf', -, -, he'⟩ := h.record timeout hp
  obtain rfl := Option.some.inj (hlast.stored.symm.trans hf')
  refine ⟨entries timeout before, entries timeout rest, ?_, fun other ho hfp => ?_⟩
  · rw [entries, List.map_append, List.map_cons, he', ← he]
    rfl
  · -- A later entry with the fingerprint would have the key, and a greater name.
    obtain ⟨⟨t', key'⟩, hp', rfl⟩ := List.mem_map.1 ho
    obtain ⟨r', hf', hk', hn', -⟩ := h.record timeout
      (List.mem_append_right before (List.mem_cons_of_mem _ hp'))
    have hkey : key' = e.key := hinj ⟨_, r', hf', hk'⟩ ⟨_, r, hlast.stored, hk⟩ hfp
    exact hlast.last t'.name r' hf' (hkey ▸ hk') hn' (h.sorted.2 (t', key') hp')

theorem loads (h : Serves m served left) (ht : k.Takes k' now (entries timeout served))
    (hinj : (k.liveKeys now ∪ keysOf m).InjOn k.fingerprintOf) :
    Loads k k' m (stopOf left) now timeout := by
  refine ⟨ht.whole, ht.indexed, fun later hle slot => ?_⟩
  rw [ht.live later hle]
  refine or_congr ?_ (and_congr_right fun hs => ?_)
  · obtain ⟨entry, expiresAt⟩ := slot
    constructor
    · rintro ⟨hlastOf, rfl⟩
      obtain ⟨name, r, hlast, he⟩ := h.isLast_of_lastOf hlastOf
      exact ⟨name, r, hlast, congrArg (Slot.mk · none) he⟩
    · rintro ⟨name, r, hlast, he⟩
      obtain ⟨he, rfl⟩ := Slot.mk.inj he
      exact ⟨h.lastOf_of_isLast (hinj.mono Set.subset_union_right) hlast he, rfl⟩
  · obtain ⟨name, hf, hl⟩ := Keyring.mem_liveSlots.1 hs
    have hlive : slot.entry.key ∈ k.liveKeys now :=
      ⟨slot, Keyring.mem_liveSlots.2 ⟨name, hf, Keyring.isLive_of_le hle hl⟩, rfl⟩
    constructor
    · intro hne name r hf hn hk
      exact hne (recordEntry timeout name r slot.entry.key) (h.mem_entries.2 ⟨name, r, hf, hk, hn, rfl⟩) rfl
    · intro hne other ho hfp
      obtain ⟨name, r, hf, hk, hn, -⟩ := h.mem_entries.1 ho
      have hkey : other.key = slot.entry.key := hinj (.inr ⟨name, r, hf, hk⟩) (.inl hlive) hfp
      exact hne name r hf hn (hkey ▸ hk)

theorem ends_of_all (h : Serves m served []) : Ends m none (.ok m.size) := by
  refine .all fun name r hf => ?_
  obtain ⟨-, key, -, -, hk⟩ := h.exists_served hf nofun
  exact ⟨key, hk⟩

theorem ends_of_fault {rest : List Secret} {fault : PublicKey.LineError}
    (h : Serves m served (t :: rest)) (hk : PublicKey.ofLineBytes t.publicData = .error fault) :
    Ends m (some t.name) (.error (.invalidKey t.name fault)) := by
  have ht : t ∈ served.map (·.1) ++ t :: rest := List.mem_append_right _ List.mem_cons_self
  obtain ⟨-, r, hf, hbytes, -⟩ := Store.Records.record_of_secret (h.lists.resolved t ht)
  refine .fault hf hbytes hk fun other r' hf' hlt => ?_
  have hn : InFront (stopOf (t :: rest)) other := by
    rintro n hn
    obtain rfl := Option.some.inj hn
    exact hlt
  obtain ⟨-, key, -, -, hk⟩ := h.exists_served hf' hn
  exact ⟨key, hk⟩

end Serves

/-! ## Loading -/

theorem secrets_of_error {e : StoreError} (hm : w.records = .ok m) (h : m.secrets = .error e) :
    secrets w = .error (.store e) (w.withStore m w.disk) := by
  rw [secrets, bind_of_ok (reload_of_ok hm), ofStore, get_bind]
  have hs : Store.secrets (w.withStore m w.disk).agent.store = .error e := h
  rw [hs]
  rfl

theorem serveStore_of_ok {all : List Secret} (now : Nat) (hi : w.agent.keyring.Indexed)
    (hw : w.agent.keyring.poisoned = false) (hm : w.records = .ok m) (hall : m.secrets = .ok all) :
    ∃ served left k', Serves m served left ∧
      w.agent.keyring.Takes k' now (entries w.agent.timeout served) ∧
      (serveStore now).after w = (w.withStore m w.disk).withKeyring k' ∧
      Ends m (stopOf left) ((serveStore now).outcome w) := by
  obtain ⟨served, left, k', hsplit, hkeys, htakes, hend⟩ :=
    serveSecrets_takes (w := w.withStore m w.disk) now hi hw all
  have hserves : Serves m served left := ⟨hsplit ▸ Store.Records.secrets_eq_ok_iff.1 hall, hkeys⟩
  rcases hend with ⟨rfl, hs⟩ | ⟨t, rest, fault, rfl, hk, hs⟩
  · have hrun := serveStore_of_serveSecrets hm hall hs
    refine ⟨served, [], k', hserves, htakes, after_of_ok hrun, ?_⟩
    rw [outcome_of_ok hrun, Store.Records.length_secrets hall]
    exact hserves.ends_of_all
  · have hrun : serveStore now w = .error (.invalidKey t.name fault)
        ((w.withStore m w.disk).withKeyring k') := by
      rw [serveStore, bind_of_ok (secrets_of_ok hm hall), bind_of_error hs]
    refine ⟨served, t :: rest, k', hserves, htakes, after_of_error hrun, ?_⟩
    rw [outcome_of_error hrun]
    exact hserves.ends_of_fault hk

/-! ## Signing after that -/

/-- Of the elements of a list that have a property, one is the last. -/
theorem exists_last {α : Type} {p : α → Prop} {l : List α} (h : ∃ x ∈ l, p x) :
    ∃ before x rest, l = before ++ x :: rest ∧ p x ∧ ∀ y ∈ rest, ¬ p y := by
  induction l with
  | nil =>
    obtain ⟨x, hx, -⟩ := h
    cases hx
  | cons x l ih =>
    by_cases hl : ∃ y ∈ l, p y
    · obtain ⟨before, y, rest, rfl, hy, hrest⟩ := ih hl
      exact ⟨x :: before, y, rest, rfl, hy, hrest⟩
    · obtain ⟨y, hy, hp⟩ := h
      rcases List.mem_cons.1 hy with rfl | hy
      · exact ⟨[], y, l, rfl, hp, fun z hz hpz => hl ⟨z, hz, hpz⟩⟩
      · exact absurd ⟨y, hy, hp⟩ hl

theorem exists_isLast (hk : key ∈ keysOf m) : ∃ name r, IsLast m none key name r := by
  obtain ⟨name, r, hf, hk⟩ := hk
  have hname : ∃ name ∈ m.names, ∃ r, m.find? name = some r ∧ keyOf? r = some key :=
    ⟨name, NameMap.mem_names.2 (NameMap.contains_eq_true.2 ⟨r, hf⟩), r, hf, hk⟩
  obtain ⟨before, name, rest, hnames, ⟨r, hf, hk⟩, hrest⟩ := exists_last hname
  refine ⟨name, r, hf, hk, nofun, fun other r' hf' hk' _ => ?_⟩
  have hsorted := m.sorted_names
  have hother : other ∈ m.names := NameMap.mem_names.2 (NameMap.contains_eq_true.2 ⟨r', hf'⟩)
  rw [hnames] at hsorted hother
  rcases List.mem_append.1 hother with ho | ho
  · exact List.le_of_lt (Utf8.bytes_lt_bytes.2
      ((List.pairwise_append.1 hsorted).2.2 other ho name List.mem_cons_self))
  · rcases List.mem_cons.1 ho with rfl | ho
    · exact List.le_refl _
    · exact absurd ⟨r', hf', hk'⟩ (hrest other ho)

/-- If loading came through, a client that asks for a signature by a stored key has the vault asked for
the last name that has the key, in the group of its record. -/
theorem Loads.asks (h : Loads k k' m none now timeout) (hk : key ∈ keysOf m) (hle : now ≤ later) :
    ∃ name r, IsLast m none key name r ∧ ∀ vault calls data flags,
      (Protocol.Session.respond later vault ⟨k', calls⟩ (.sign key data flags)).2.calls =
        if Signer.Permitted key flags then calls ++ [.sign name r.group data] else calls := by
  obtain ⟨name, r, hlast⟩ := exists_isLast hk
  refine ⟨name, r, hlast, fun vault calls data flags => ?_⟩
  have hslot : ⟨recordEntry timeout name r key, none⟩ ∈ k'.liveSlots later :=
    (h.live later hle _).2 (.inl ⟨name, r, hlast, rfl⟩)
  obtain ⟨at', hf, hl⟩ := Keyring.mem_liveSlots.1 hslot
  have hserved : k'.served? later key = some (recordEntry timeout name r key) :=
    h.indexed.served?_eq_some.2 ⟨h.whole, at', _, hf, hl, rfl, rfl⟩
  by_cases hp : Signer.Permitted key flags
  · rw [if_pos hp]
    have hsigner := Keyring.signer?_eq_some.2 ⟨hserved, rfl, hp⟩
    obtain ⟨answer, hr, -, -⟩ := Protocol.Session.respond_sign_of_signer? (s := ⟨k', calls⟩)
      h.indexed vault data hsigner
    rw [hr]
    rfl
  · rw [if_neg hp]
    have hsigner : k'.signer? later key flags = none := by
      rw [Option.eq_none_iff_forall_ne_some]
      exact fun e he => hp (Keyring.signer?_eq_some.1 he).2.2
    rw [Protocol.Session.respond_sign_of_no_signer? (s := ⟨k', calls⟩) h.indexed hsigner]

/-! ## The whole of it -/

/-- If the file cannot be read, or not all secrets in it can be listed, loading fails with that fault
and leaves the keyring alone. Otherwise it ends as the records say, and the keyring has taken up the
records in front of where it stopped; if it came through, clients reach the last record of each key. -/
theorem serveStore_effect {fingerprintOf : PublicKey → String} (now : Nat)
    (ha : Keyring.Arises fingerprintOf w.agent.keyring) (hw : w.agent.keyring.poisoned = false) :
    (∀ e, w.records = .error e → serveStore now w = .error (.store e) w) ∧
    ∀ m, w.records = .ok m →
      (∀ e, m.secrets = .error e → serveStore now w = .error (.store e) (w.withStore m w.disk)) ∧
      ∀ all, m.secrets = .ok all → ∃ stop k',
        Ends m stop ((serveStore now).outcome w) ∧
        (serveStore now).after w = (w.withStore m w.disk).withKeyring k' ∧
        ((w.agent.keyring.liveKeys now ∪ keysOf m).InjOn w.agent.keyring.fingerprintOf →
          Loads w.agent.keyring k' m stop now w.agent.timeout ∧
          (stop = none → ∀ key ∈ keysOf m, ∀ later, now ≤ later → ∃ name r,
            IsLast m none key name r ∧ ∀ vault calls data flags,
              (Protocol.Session.respond later vault ⟨k', calls⟩ (.sign key data flags)).2.calls =
                if Signer.Permitted key flags then calls ++ [.sign name r.group data] else calls)) := by
  refine ⟨fun e he => ?_, fun m hm => ⟨fun e he => ?_, fun all hall => ?_⟩⟩
  · rw [serveStore, secrets, bind_of_error (bind_of_error (reload_of_error he))]
  · rw [serveStore, bind_of_error (secrets_of_error hm he)]
  · obtain ⟨served, left, k', hserves, htakes, hafter, hends⟩ :=
      serveStore_of_ok now ha.indexed hw hm hall
    refine ⟨stopOf left, k', hends, hafter, fun hinj => ?_⟩
    have hloads := hserves.loads htakes hinj
    refine ⟨hloads, fun hstop key hk later hle => ?_⟩
    rw [hstop] at hloads
    exact hloads.asks hk hle

/-- Two records with one key, the second in the group of the first. -/
def sharedKey : Store.Records :=
  .ofList [("a", onesRecord), ("b", { onesRecord with group := "a" })]

theorem keyOf?_sharedKey (hf : sharedKey.find? name = some r) :
    keyOf? r = some (Keyring.plainKey 1) := by
  have hall : ∀ e ∈ sharedKey.toList, keyOf? e.2 = some (Keyring.plainKey 1) := by decide +kernel
  exact hall (name, r) (NameMap.mem_toList.2 hf)

theorem secrets_sharedKey : ∃ all, sharedKey.secrets = .ok all := by
  have hresolves : sharedKey.secrets.toOption.isSome = true := by decide +kernel
  cases h : sharedKey.secrets with
  | ok all => exact ⟨all, rfl⟩
  | error e =>
    rw [h] at hresolves
    cases hresolves

theorem mem_keysOf_sharedKey : Keyring.plainKey 1 ∈ keysOf sharedKey :=
  ⟨"a", onesRecord, rfl, by decide +kernel⟩

theorem injOn_sharedKey :
    ((World.fresh sharedKey).agent.keyring.liveKeys 0 ∪ keysOf sharedKey).InjOn
      (World.fresh sharedKey).agent.keyring.fingerprintOf := by
  have hkeys : ∀ key ∈ (World.fresh sharedKey).agent.keyring.liveKeys 0 ∪ keysOf sharedKey,
      key = Keyring.plainKey 1 := by
    rintro key (⟨slot, hs, -⟩ | ⟨name, r, hf, hk⟩)
    · cases hs
    · rw [keyOf?_sharedKey hf] at hk
      exact (Option.some.inj hk).symm
  exact fun key hkey other hother _ => (hkeys key hkey).trans (hkeys other hother).symm

/-- The second record is the last one of the key. -/
theorem eq_of_isLast_sharedKey (h : IsLast sharedKey none (Keyring.plainKey 1) name r) :
    name = "b" ∧ r = { onesRecord with group := "a" } := by
  have hmem : (name, r) ∈ [("a", onesRecord), ("b", { onesRecord with group := "a" })] :=
    NameMap.mem_toList.2 h.stored
  rcases List.mem_cons.1 hmem with heq | hmem
  · obtain ⟨rfl, rfl⟩ := Prod.mk.inj heq
    have hle := h.last "b" { onesRecord with group := "a" } rfl (by decide +kernel) nofun
    exact absurd hle (by decide +kernel)
  · exact Prod.mk.inj (List.mem_singleton.1 hmem)

/-- Both records are loaded, and the second is the one that the key is asked for. -/
theorem serveStore_effect_of_sharedKey :
    Keyring.Arises PublicKey.fingerprint (World.fresh sharedKey).agent.keyring ∧
    (World.fresh sharedKey).agent.keyring.poisoned = false ∧
    (World.fresh sharedKey).records = .ok sharedKey ∧
    (∃ all, sharedKey.secrets = .ok all) ∧
    ((World.fresh sharedKey).agent.keyring.liveKeys 0 ∪ keysOf sharedKey).InjOn
      (World.fresh sharedKey).agent.keyring.fingerprintOf ∧
    ∃ k', (serveStore 0).after (World.fresh sharedKey) =
        ((World.fresh sharedKey).withStore sharedKey (World.fresh sharedKey).disk).withKeyring k' ∧
      ∀ calls, (Protocol.Session.respond 1 (.signing []) ⟨k', calls⟩
        (.sign (Keyring.plainKey 1) [7] 0)).2.calls = calls ++ [.sign "b" "a" [7]] := by
  have ha : Keyring.Arises PublicKey.fingerprint (World.fresh sharedKey).agent.keyring := .new _
  have hm := World.records_fresh sharedKey
  obtain ⟨all, hall⟩ := secrets_sharedKey
  obtain ⟨stop, k', hends, hafter, hloads⟩ := ((serveStore_effect 0 ha rfl).2 _ hm).2 all hall
  obtain ⟨hloads, hasks⟩ := hloads injOn_sharedKey
  refine ⟨ha, rfl, hm, ⟨all, hall⟩, injOn_sharedKey, k', hafter, fun calls => ?_⟩
  have hstop : stop = none := hends.stop_eq_none fun name r hf => ⟨_, keyOf?_sharedKey hf⟩
  obtain ⟨name, r, hlast, hcalls⟩ := hasks hstop _ mem_keysOf_sharedKey 1 (by decide)
  obtain ⟨rfl, rfl⟩ := eq_of_isLast_sharedKey hlast
  exact hcalls (.signing []) calls [7] 0

end VaultAgent.Agent
