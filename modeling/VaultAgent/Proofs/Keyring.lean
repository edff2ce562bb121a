import VaultAgent.Proofs.Action
import VaultAgent.Proofs.NameMap
import VaultAgent.Keyring
import Mathlib.Data.Set.Function

/-!
# What is in a keyring

A keyring that only its agent fills is `Steady`: it is whole, every slot is found by the fingerprint
of its key, and no entry expires. Then the live keys are those in the ring at any time
(`Steady.liveKeys_eq`), no two of them have one fingerprint, and each change has a plain effect on
the slots.
-/

namespace VaultAgent.Keyring

open VaultAgent.Action
open Ssh (PublicKey)

variable {k k' : Keyring} {name : String} {slot : Slot} {e : Entry} {key : PublicKey} {now : Nat}

/-- The public keys of the live entries. -/
def liveKeys (k : Keyring) (now : Nat) : Set PublicKey :=
  {key | ∃ slot ∈ k.liveSlots now, slot.entry.key = key}

/-- The public keys of all entries, live or not. -/
def keys (k : Keyring) : Set PublicKey :=
  {key | ∃ name slot, k.slots.find? name = some slot ∧ slot.entry.key = key}

/-- Every slot is found by the fingerprint of its key. No change of a keyring breaks this. -/
def Indexed (k : Keyring) : Prop :=
  ∀ name slot, k.slots.find? name = some slot → name = k.fingerprintOf slot.entry.key

structure Steady (k : Keyring) : Prop where
  fingerprints : k.fingerprintOf = PublicKey.fingerprint
  whole : k.poisoned = false
  indexed : ∀ name slot, k.slots.find? name = some slot → name = slot.entry.key.fingerprint
  lasting : ∀ name slot, k.slots.find? name = some slot → slot.expiresAt = none

theorem checkWhole_of_whole (hw : k.poisoned = false) : k.checkWhole = .ok () := by
  simp [checkWhole, hw]

theorem mem_liveSlots : slot ∈ k.liveSlots now ↔
    ∃ name, k.slots.find? name = some slot ∧ slot.isLive now = true := by
  simp [liveSlots, NameMap.mem_toList]

/-! ## Looking up -/

theorem find?_eq_some : k.find? now key = some e ↔ ∃ expiresAt,
    k.slots.find? (k.fingerprintOf key) = some ⟨e, expiresAt⟩ ∧
      Slot.isLive now ⟨e, expiresAt⟩ = true ∧ e.key = key := by
  unfold find?
  cases hf : k.slots.find? (k.fingerprintOf key) with
  | none => simp
  | some slot =>
    obtain ⟨entry, expiresAt⟩ := slot
    simp only [Option.some.injEq, Slot.mk.injEq]
    constructor
    · intro h
      split at h
      · rename_i hc
        cases h
        exact ⟨expiresAt, ⟨rfl, rfl⟩, hc⟩
      · cases h
    · rintro ⟨_, ⟨rfl, rfl⟩, hc⟩
      exact if_pos hc

section

variable (vault : Vault) (data : List UInt8) (flags : Nat) (calls : List VaultCall)

theorem sign_of_poisoned (hp : k.poisoned = true) :
    k.sign now vault key data flags calls = .error .poisoned calls := by
  rw [sign, checkWhole, if_pos hp]
  rfl

theorem sign_of_absent (hw : k.poisoned = false) (h : k.find? now key = none) :
    k.sign now vault key data flags calls = .error .keyNotFound calls := by
  rw [sign, checkWhole_of_whole hw, ofExcept_ok_bind, h]
  rfl

theorem sign_of_confirm (hw : k.poisoned = false) (h : k.find? now key = some e)
    (hc : e.confirm = true) :
    k.sign now vault key data flags calls = .error .confirmationUnavailable calls := by
  rw [sign, checkWhole_of_whole hw, ofExcept_ok_bind, h]
  simp only [hc, if_true]
  rfl

theorem sign_of_live (hw : k.poisoned = false) (h : k.find? now key = some e)
    (hc : e.confirm = false) :
    k.sign now vault key data flags calls = e.signer.sign vault data flags calls := by
  rw [sign, checkWhole_of_whole hw, ofExcept_ok_bind, h]
  simp only [hc, Bool.false_eq_true, if_false]

end

/-! ## Keyrings in which nothing expires -/

namespace Steady

theorem empty : Keyring.empty.Steady :=
  ⟨rfl, rfl, nofun, nofun⟩

theorem isIndexed (h : k.Steady) : k.Indexed := by
  intro name slot hf
  rw [h.fingerprints]
  exact h.indexed name slot hf

theorem isLive (h : k.Steady) (hf : k.slots.find? name = some slot) : slot.isLive now = true := by
  simp [Slot.isLive, h.lasting name slot hf]

theorem mem_liveSlots (h : k.Steady) :
    slot ∈ k.liveSlots now ↔ ∃ name, k.slots.find? name = some slot := by
  rw [Keyring.mem_liveSlots]
  exact exists_congr fun name => and_iff_left_of_imp h.isLive

/-- Nothing expires. -/
theorem liveKeys_eq (h : k.Steady) (now : Nat) : k.liveKeys now = k.keys := by
  ext key
  constructor
  · rintro ⟨slot, hs, hk⟩
    obtain ⟨name, hf⟩ := h.mem_liveSlots.1 hs
    exact ⟨name, slot, hf, hk⟩
  · rintro ⟨name, slot, hf, hk⟩
    exact ⟨slot, h.mem_liveSlots.2 ⟨name, hf⟩, hk⟩

theorem find?_of_mem_keys (h : k.Steady) (hk : key ∈ k.keys) :
    ∃ slot, k.slots.find? key.fingerprint = some slot ∧ slot.entry.key = key := by
  obtain ⟨name, slot, hf, rfl⟩ := hk
  exact ⟨slot, h.indexed name slot hf ▸ hf, rfl⟩

/-- A fingerprint is one of no more than one key. -/
theorem injOn (h : k.Steady) : k.keys.InjOn PublicKey.fingerprint := by
  intro a ha b hb hab
  obtain ⟨s, hs, rfl⟩ := h.find?_of_mem_keys ha
  obtain ⟨t, ht, rfl⟩ := h.find?_of_mem_keys hb
  rw [hab] at hs
  rw [Option.some.inj (hs.symm.trans ht)]

end Steady

/-! ## Adding -/

/-- The keyring with an entry instead of the one of the same fingerprint. -/
def withEntry (k : Keyring) (e : Entry) : Keyring :=
  { k with slots := k.slots.insert (k.fingerprintOf e.key) ⟨e, none⟩ }

/-- The slots that stay when an entry is added. -/
def swept (k : Keyring) (now : Nat) : NameMap Slot :=
  k.slots.filter fun _ slot => slot.isLive now

theorem find?_swept : (k.swept now).find? name = some slot ↔
    k.slots.find? name = some slot ∧ slot.isLive now = true :=
  NameMap.find?_filter_eq_some

theorem find?_insert_swept {other : String} {slot' : Slot} :
    ((k.swept now).insert name slot').find? other = some slot ↔ name = other ∧ slot' = slot ∨
      name ≠ other ∧ k.slots.find? other = some slot ∧ slot.isLive now = true := by
  rw [NameMap.find?_insert]
  by_cases hn : name = other
  · simp [hn]
  · simp only [hn, if_false, find?_swept, false_and, ne_eq, not_false_eq_true, true_and, false_or]

/-- The slot of an entry whose lifetime counts from `start`. -/
def slotFrom (start : Nat) (e : Entry) : Slot :=
  ⟨e, e.lifetime.map fun d => start + d.nanoseconds⟩

/-- The clock shows the time at which the entry is dropped, if its lifetime counts from `start`. -/
def InReach (start : Nat) (e : Entry) : Prop :=
  ∀ d ∈ e.lifetime, start + d.nanoseconds < clockEnd

instance (start : Nat) (e : Entry) : Decidable (InReach start e) :=
  inferInstanceAs (Decidable (∀ d ∈ e.lifetime, _))

theorem inReach_of_lasting (he : e.lifetime = none) (start : Nat) : InReach start e := by
  simp [InReach, he]

theorem deadline_of_inReach {start : Nat} (hr : InReach start e) :
    deadline start e.lifetime = .ok (slotFrom start e).expiresAt := by
  unfold slotFrom
  cases hl : e.lifetime with
  | none => rfl
  | some d => exact if_pos (hr d hl)

theorem deadline_of_not_inReach {start : Nat} (hr : ¬ InReach start e) :
    deadline start e.lifetime = .error .beyondClock := by
  cases hl : e.lifetime with
  | none => exact absurd (inReach_of_lasting hl start) hr
  | some d =>
    refine if_neg fun hlt => hr fun d' hd => ?_
    obtain rfl := Option.some.inj (hl.symm.trans hd)
    exact hlt

/-- An entry that is to live beyond the end of the clock is not taken, and nothing changes. -/
theorem addFrom_of_not_inReach {start : Nat} (hr : ¬ InReach start e) (now : Nat) (k : Keyring) :
    addFrom start now e k = .error .beyondClock k := by
  rw [addFrom, deadline_of_not_inReach hr]
  rfl

theorem addFrom_of_poisoned (hp : k.poisoned = true) {start : Nat} (hr : InReach start e)
    (now : Nat) : addFrom start now e k = .error .poisoned k := by
  rw [addFrom, deadline_of_inReach hr, ofExcept_ok_bind, get_bind, checkWhole, if_pos hp]
  rfl

/-- A keyring that is whole takes every entry whose time the clock shows. -/
theorem addFrom_of_whole (hw : k.poisoned = false) {start : Nat} (hr : InReach start e) (now : Nat) :
    addFrom start now e k = .ok ((k.swept now).contains (k.fingerprintOf e.key))
      { k with slots := (k.swept now).insert (k.fingerprintOf e.key) (slotFrom start e) } := by
  rw [addFrom, deadline_of_inReach hr, ofExcept_ok_bind, get_bind, checkWhole_of_whole hw,
    ofExcept_ok_bind]
  rfl

/-- An entry is taken, or nothing changes. -/
theorem addFrom_cases (start now : Nat) (e : Entry) (k : Keyring) :
    (∃ fault, addFrom start now e k = .error fault k) ∨ k.poisoned = false ∧ InReach start e := by
  by_cases hr : InReach start e
  · cases hw : k.poisoned with
    | true => exact .inl ⟨_, addFrom_of_poisoned hw hr now⟩
    | false => exact .inr ⟨rfl, hr⟩
  · exact .inl ⟨_, addFrom_of_not_inReach hr now k⟩

theorem Indexed.addFrom (h : k.Indexed) (start now : Nat) (e : Entry) :
    ((Keyring.addFrom start now e).after k).Indexed := by
  rcases addFrom_cases start now e k with ⟨fault, ha⟩ | ⟨hw, hr⟩
  · rwa [after_of_error ha]
  · rw [after_of_ok (addFrom_of_whole hw hr now)]
    intro name slot hf
    rcases find?_insert_swept.1 hf with ⟨rfl, rfl⟩ | ⟨-, hf, -⟩
    · rfl
    · exact h name slot hf

theorem add_eq_error {fault : KeyringError} (h : add now e k = .error fault k') : k' = k := by
  rcases addFrom_cases now now e k with ⟨fault', ha⟩ | ⟨hw, hr⟩
  · cases ha.symm.trans h
    rfl
  · cases (addFrom_of_whole hw hr now).symm.trans h

theorem add_of_whole (hw : k.poisoned = false) (he : e.lifetime = none) (now : Nat) :
    ∃ b k', add now e k = .ok b k' ∧ k'.poisoned = false :=
  ⟨_, _, addFrom_of_whole hw (inReach_of_lasting he now) now, hw⟩

namespace Steady

theorem add (h : k.Steady) (now : Nat) (he : e.lifetime = none) :
    ∃ b, Keyring.add now e k = .ok b (k.withEntry e) := by
  have hlive : k.swept now = k.slots :=
    NameMap.ext fun name => Option.ext fun slot => by
      rw [find?_swept]
      exact and_iff_left_of_imp h.isLive
  refine ⟨k.slots.contains (k.fingerprintOf e.key), ?_⟩
  rw [Keyring.add, addFrom_of_whole h.whole (inReach_of_lasting he now), hlive, slotFrom, he]
  rfl

theorem find?_withEntry (h : k.Steady) : (k.withEntry e).slots.find? name =
    if e.key.fingerprint = name then some ⟨e, none⟩ else k.slots.find? name := by
  rw [Keyring.withEntry, NameMap.find?_insert, h.fingerprints]

theorem withEntry (h : k.Steady) (e : Entry) : (k.withEntry e).Steady := by
  refine ⟨h.fingerprints, h.whole, fun name slot hf => ?_, fun name slot hf => ?_⟩ <;>
    rw [h.find?_withEntry] at hf <;> split at hf
  · rename_i hn; cases hf; exact hn.symm
  · exact h.indexed name slot hf
  · cases hf; rfl
  · exact h.lasting name slot hf

theorem mem_keys_withEntry (h : k.Steady) : key ∈ (k.withEntry e).keys ↔
    key = e.key ∨ key ∈ k.keys ∧ key.fingerprint ≠ e.key.fingerprint := by
  constructor
  · intro hk
    obtain ⟨slot, hf, hkey⟩ := (h.withEntry e).find?_of_mem_keys hk
    rw [h.find?_withEntry] at hf
    split at hf
    · cases hf; exact .inl hkey.symm
    · rename_i hne; exact .inr ⟨⟨_, slot, hf, hkey⟩, Ne.symm hne⟩
  · rintro (rfl | ⟨hk, hne⟩)
    · exact ⟨_, _, by rw [h.find?_withEntry, if_pos rfl], rfl⟩
    · obtain ⟨slot, hf, hkey⟩ := h.find?_of_mem_keys hk
      exact ⟨_, slot, by rw [h.find?_withEntry, if_neg hne.symm, hf], hkey⟩

/-- Adding a key takes no other away if none has its fingerprint. -/
theorem keys_withEntry_eq_iff (h : k.Steady) : (k.withEntry e).keys = insert e.key k.keys ↔
    (insert e.key k.keys).InjOn PublicKey.fingerprint := by
  constructor
  · exact fun hkeys => hkeys ▸ (h.withEntry e).injOn
  · intro hinj
    ext key
    rw [h.mem_keys_withEntry, Set.mem_insert_iff]
    refine ⟨Or.imp_right (·.1), fun hk => hk.elim .inl fun hk => ?_⟩
    by_cases hfp : key.fingerprint = e.key.fingerprint
    · exact .inl (hinj (.inr hk) (.inl rfl) hfp)
    · exact .inr ⟨hk, hfp⟩

end Steady

/-- The second keyring comes of the first by adding entries for these keys. -/
structure Gains (k k' : Keyring) (added : Set PublicKey) : Prop where
  steady : k'.Steady
  origin : ∀ key ∈ k'.keys, key ∈ added ∨
    key ∈ k.keys ∧ ∀ other ∈ added, other.fingerprint ≠ key.fingerprint
  there : ∀ key ∈ added, ∃ other ∈ k'.keys, other.fingerprint = key.fingerprint
  kept : ∀ key ∈ k.keys, (∀ other ∈ added, other.fingerprint ≠ key.fingerprint) → key ∈ k'.keys

theorem Steady.gains (h : k.Steady) (e : Entry) : k.Gains (k.withEntry e) {e.key} where
  steady := h.withEntry e
  origin key hk := by
    simpa [eq_comm (a := e.key.fingerprint)] using h.mem_keys_withEntry.1 hk
  there key hk := ⟨key, h.mem_keys_withEntry.2 (.inl hk), rfl⟩
  kept key hk hne := h.mem_keys_withEntry.2 (.inr ⟨hk, (hne e.key rfl).symm⟩)

namespace Gains

variable {k'' : Keyring} {S T : Set PublicKey}

theorem none (h : k.Steady) : k.Gains k ∅ where
  steady := h
  origin _ hk := .inr ⟨hk, nofun⟩
  there := nofun
  kept _ hk _ := hk

theorem trans (h : k.Gains k' S) (h' : k'.Gains k'' T) : k.Gains k'' (S ∪ T) where
  steady := h'.steady
  origin key hk := by
    rcases h'.origin key hk with hT | ⟨hk, hT⟩
    · exact .inl (.inr hT)
    · rcases h.origin key hk with hS | ⟨hk, hS⟩
      · exact .inl (.inl hS)
      · exact .inr ⟨hk, fun other ho => ho.elim (hS other) (hT other)⟩
  there key hk := by
    by_cases hT : ∃ other ∈ T, other.fingerprint = key.fingerprint
    · obtain ⟨other, ho, hfp⟩ := hT
      obtain ⟨last, hl, hlast⟩ := h'.there other ho
      exact ⟨last, hl, hlast.trans hfp⟩
    · rcases hk with hS | hk
      · obtain ⟨other, ho, hfp⟩ := h.there key hS
        exact ⟨other, h'.kept other ho fun t ht hto => hT ⟨t, ht, hto.trans hfp⟩, hfp⟩
      · exact absurd ⟨key, hk, rfl⟩ hT
  kept key hk hne := h'.kept key (h.kept key hk fun other ho => hne other (.inl ho))
    fun other ho => hne other (.inr ho)

/-- Of the added keys all are there, and no others, if no two of them have one fingerprint and those
that were there before make way. -/
theorem keys_eq_iff (h : k.Gains k' S) : k'.keys = S ↔ S.InjOn PublicKey.fingerprint ∧
    ∀ key ∈ k.keys, ∃ other ∈ S, other.fingerprint = key.fingerprint := by
  constructor
  · rintro rfl
    refine ⟨h.steady.injOn, fun key hk => ?_⟩
    by_contra hno
    push Not at hno
    exact hno key (h.kept key hk hno) rfl
  · rintro ⟨hinj, hcover⟩
    ext key
    constructor
    · intro hk
      rcases h.origin key hk with hS | ⟨hk, hno⟩
      · exact hS
      · obtain ⟨other, ho, hfp⟩ := hcover key hk
        exact absurd hfp (hno other ho)
    · intro hS
      obtain ⟨other, ho, hfp⟩ := h.there key hS
      rcases h.origin other ho with ho' | ⟨-, hno⟩
      · exact hinj ho' hS hfp ▸ ho
      · exact absurd hfp.symm (hno key hS)

end Gains

/-! ## Removing -/

/-- The keyring keeps the slots that pass a test. -/
structure Keeps (k k' : Keyring) (p : Slot → Prop) : Prop where
  fingerprints : k'.fingerprintOf = k.fingerprintOf
  order : k'.order = k.order
  poisoned : k'.poisoned = k.poisoned
  slots : ∀ name slot, k'.slots.find? name = some slot ↔ k.slots.find? name = some slot ∧ p slot

namespace Keeps

variable {k'' : Keyring} {p q : Slot → Prop}

theorem self (k : Keyring) : k.Keeps k fun _ => True :=
  ⟨rfl, rfl, rfl, fun _ _ => (and_iff_left trivial).symm⟩

theorem trans (h : k.Keeps k' p) (h' : k'.Keeps k'' q) : k.Keeps k'' fun slot => p slot ∧ q slot :=
  ⟨h'.fingerprints.trans h.fingerprints, h'.order.trans h.order, h'.poisoned.trans h.poisoned,
    fun name slot => by rw [h'.slots, h.slots, and_assoc]⟩

theorem congr (h : k.Keeps k' p) (hpq : ∀ slot, p slot ↔ q slot) : k.Keeps k' q :=
  ⟨h.fingerprints, h.order, h.poisoned, fun name slot => by rw [h.slots, hpq]⟩

/-- What is kept says all that there is. -/
theorem unique (h : k.Keeps k' p) (h' : k.Keeps k'' p) : k' = k'' := by
  have hslots : k'.slots = k''.slots := NameMap.ext fun name => Option.ext fun slot => by
    rw [h.slots, h'.slots]
  obtain ⟨fp, slots, order, poisoned⟩ := k'
  obtain ⟨fp', slots', order', poisoned'⟩ := k''
  obtain rfl : fp = fp' := h.fingerprints.trans h'.fingerprints.symm
  obtain rfl : slots = slots' := hslots
  obtain rfl : order = order' := h.order.trans h'.order.symm
  obtain rfl : poisoned = poisoned' := h.poisoned.trans h'.poisoned.symm
  rfl

theorem indexed (hk : k.Keeps k' p) (h : k.Indexed) : k'.Indexed := by
  intro name slot hf
  rw [hk.fingerprints]
  exact h name slot ((hk.slots name slot).1 hf).1

theorem steady (hk : k.Keeps k' p) (h : k.Steady) : k'.Steady where
  fingerprints := hk.fingerprints.trans h.fingerprints
  whole := hk.poisoned.trans h.whole
  indexed name slot hf := h.indexed name slot ((hk.slots name slot).1 hf).1
  lasting name slot hf := h.lasting name slot ((hk.slots name slot).1 hf).1

end Keeps

theorem remove_of_poisoned (hp : k.poisoned = true) (key : PublicKey) :
    remove key k = .error .poisoned k := by
  rw [remove, get_bind, checkWhole, if_pos hp]
  rfl

/-- The slot of the fingerprint is erased if it has exactly this key. -/
theorem remove_of_whole (hw : k.poisoned = false) (key : PublicKey) :
    (∃ slot, k.slots.find? (k.fingerprintOf key) = some slot ∧ slot.entry.key = key ∧
      remove key k = .ok true { k with slots := k.slots.erase (k.fingerprintOf key) }) ∨
    (∀ slot, k.slots.find? (k.fingerprintOf key) = some slot → slot.entry.key ≠ key) ∧
      remove key k = .ok false k := by
  rw [remove, get_bind, checkWhole_of_whole hw, ofExcept_ok_bind]
  cases hf : k.slots.find? (k.fingerprintOf key) with
  | none => exact .inr ⟨nofun, rfl⟩
  | some slot =>
    by_cases hkey : slot.entry.key = key
    · refine .inl ⟨slot, rfl, hkey, ?_⟩
      simp only [hkey, ne_eq, not_true_eq_false, if_false]
      rfl
    · refine .inr ⟨fun _ hs => Option.some.inj hs ▸ hkey, ?_⟩
      simp only [ne_eq, hkey, not_false_eq_true, if_true]
      rfl

/-- A removal takes out a slot of exactly this key and no other, even one of the same fingerprint. -/
theorem find?_remove (hw : k.poisoned = false) (key : PublicKey) :
    ((remove key).after k).slots.find? name = some slot ↔
      k.slots.find? name = some slot ∧ ¬ (name = k.fingerprintOf key ∧ slot.entry.key = key) := by
  rcases remove_of_whole hw key with ⟨s, hf, hkey, hr⟩ | ⟨hne, hr⟩
  · rw [after_of_ok hr, NameMap.find?_erase]
    by_cases hn : k.fingerprintOf key = name
    · subst hn
      simp only [hf, if_true, reduceCtorEq, Option.some.injEq, true_and, false_iff, not_and, not_not]
      rintro rfl
      exact hkey
    · rw [if_neg hn]
      exact (and_iff_left fun h => hn h.1.symm).symm
  · rw [after_of_ok hr]
    refine (and_iff_left_of_imp ?_).symm
    rintro hf ⟨rfl, hkey⟩
    exact hne slot hf hkey

theorem fingerprintOf_remove (hw : k.poisoned = false) (key : PublicKey) :
    ((remove key).after k).fingerprintOf = k.fingerprintOf := by
  rcases remove_of_whole hw key with ⟨_, -, -, hr⟩ | ⟨-, hr⟩ <;> rw [after_of_ok hr]

theorem order_remove (hw : k.poisoned = false) (key : PublicKey) :
    ((remove key).after k).order = k.order := by
  rcases remove_of_whole hw key with ⟨_, -, -, hr⟩ | ⟨-, hr⟩ <;> rw [after_of_ok hr]

theorem poisoned_remove (hw : k.poisoned = false) (key : PublicKey) :
    ((remove key).after k).poisoned = k.poisoned := by
  rcases remove_of_whole hw key with ⟨_, -, -, hr⟩ | ⟨-, hr⟩ <;> rw [after_of_ok hr]

/-- A key that is not in the slot of its fingerprint is in none. -/
theorem Indexed.remove (h : k.Indexed) (hw : k.poisoned = false) (key : PublicKey) : ∃ b k',
    Keyring.remove key k = .ok b k' ∧ k.Keeps k' fun slot => slot.entry.key ≠ key := by
  have hkeeps : k.Keeps ((Keyring.remove key).after k) fun slot => slot.entry.key ≠ key := by
    refine ⟨fingerprintOf_remove hw key, order_remove hw key, poisoned_remove hw key,
      fun name slot => ?_⟩
    rw [find?_remove hw]
    refine and_congr_right fun hf => not_congr (and_iff_right_of_imp ?_)
    rintro rfl
    exact h name slot hf
  rcases remove_of_whole hw key with ⟨_, -, -, hr⟩ | ⟨-, hr⟩ <;>
    exact ⟨_, _, hr, by rwa [after_of_ok hr] at hkeeps⟩

theorem removeAll_of_poisoned (hp : k.poisoned = true) (now : Nat) :
    removeAll now k = .error .poisoned k := by
  rw [removeAll, get_bind, checkWhole, if_pos hp]
  rfl

theorem removeAll_of_whole (hw : k.poisoned = false) (now : Nat) :
    removeAll now k = .ok (k.size now) { k with slots := NameMap.empty } := by
  rw [removeAll, get_bind, checkWhole_of_whole hw]
  rfl

theorem removeAll_eq_ok (now : Nat) (hw : k.poisoned = false) : ∃ n k',
    removeAll now k = .ok n k' ∧ k.Keeps k' fun _ => False :=
  ⟨_, _, removeAll_of_whole hw now, rfl, rfl, rfl, fun name slot => by simp⟩

/-! ## Plain entries -/

/-- An Ed25519 key, all of whose bytes are `b`. -/
def plainKey (b : UInt8) : PublicKey :=
  .ed25519 (List.replicate 32 b)

/-- An entry for such a key, kept for so many seconds. -/
def plainEntry (b : UInt8) (comment : String) (lifetime : Option Nat) : Entry where
  signer := ⟨plainKey b, comment, "", .ofSeconds 30⟩
  comment := comment
  lifetime := lifetime.map .ofSeconds
  confirm := false

end VaultAgent.Keyring
