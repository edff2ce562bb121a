import VaultAgent.Proofs.Keyring.Timetable

/-!
# Keys are matched exactly

A keyring finds its slots by fingerprints, and nothing is assumed of these here: two keys may have the
same. Then an entry that is added may push out one of another key, but none is ever taken for one of
another key. What carries this is that every slot stands under the fingerprint of its own key, which
all calls keep (`Arises.indexed`).
-/

namespace VaultAgent.Keyring

open VaultAgent.Action
open Ssh (PublicKey)

variable {fingerprintOf : PublicKey → String} {k : Keyring} {now : Nat} {key : PublicKey}

/-- What may become of a new keyring, by calls at any times and by changes that are broken off. -/
inductive Arises (fingerprintOf : PublicKey → String) : Keyring → Prop
  | new (order : Slot.Order) : Arises fingerprintOf ⟨fingerprintOf, .empty, order, false⟩
  | call {k : Keyring} (h : Arises fingerprintOf k) (vault : Vault) (now : Nat)
    (calls : List VaultCall) (c : Call) : Arises fingerprintOf (c.run vault now k calls).2.1
  | poison {k : Keyring} (h : Arises fingerprintOf k) :
    Arises fingerprintOf { k with poisoned := true }

/-- Every answer about a key, and every change on account of a key, goes by the entries that have this
key themselves. -/
structure Exact (k : Keyring) : Prop where
  contains : ∀ now key, k.contains now key = true ↔
    k.poisoned = false ∧ ∃ slot ∈ k.liveSlots now, slot.entry.key = key
  signs : ∀ vault now key data flags calls,
    k.poisoned = true ∧ k.sign now vault key data flags calls = .error .poisoned calls ∨
    (∀ slot ∈ k.liveSlots now, slot.entry.key ≠ key) ∧
      k.sign now vault key data flags calls = .error .keyNotFound calls ∨
    ∃ slot ∈ k.liveSlots now, slot.entry.key = key ∧ k.sign now vault key data flags calls =
      if slot.entry.confirm then .error .confirmationUnavailable calls
      else slot.entry.signer.sign vault data flags calls
  keeps : ∀ key name slot, k.slots.find? name = some slot → slot.entry.key ≠ key →
    ((remove key).after k).slots.find? name = some slot
  drops : k.poisoned = false → ∀ key name slot,
    ((remove key).after k).slots.find? name = some slot → slot.entry.key ≠ key
  lists : ∀ now all, k.identities now = .ok all → (all.map (·.key)).Nodup ∧
    ∀ key comment, ⟨key, comment⟩ ∈ all ↔
      ∃ slot ∈ k.liveSlots now, slot.entry.key = key ∧ slot.entry.comment = comment

namespace Indexed

theorem run (h : k.Indexed) (vault : Vault) (now : Nat) (calls : List VaultCall) (c : Call) :
    (c.run vault now k calls).2.1.Indexed := by
  cases c with
  | add start e => exact h.addFrom start now e
  | remove key =>
    show ((Keyring.remove key).after k).Indexed
    cases hw : k.poisoned with
    | true => rwa [after_of_error (remove_of_poisoned hw key)]
    | false =>
      obtain ⟨b, k', hr, hk⟩ := h.remove hw key
      exact after_of_ok hr ▸ hk.indexed h
  | removeAll =>
    show ((Keyring.removeAll now).after k).Indexed
    cases hw : k.poisoned with
    | true => rwa [after_of_error (removeAll_of_poisoned hw now)]
    | false =>
      obtain ⟨n, k', hr, hk⟩ := removeAll_eq_ok now hw
      exact after_of_ok hr ▸ hk.indexed h
  | _ => exact h

theorem find?_eq_some_iff (h : k.Indexed) {e : Entry} :
    k.find? now key = some e ↔ ∃ slot ∈ k.liveSlots now, slot.entry = e ∧ e.key = key := by
  rw [find?_eq_some]
  constructor
  · rintro ⟨expiresAt, hf, hl, hkey⟩
    exact ⟨_, mem_liveSlots.2 ⟨_, hf, hl⟩, rfl, hkey⟩
  · rintro ⟨slot, hs, rfl, rfl⟩
    obtain ⟨name, hf, hl⟩ := mem_liveSlots.1 hs
    exact ⟨slot.expiresAt, h name slot hf ▸ hf, hl, rfl⟩

theorem find?_eq_none_iff (h : k.Indexed) :
    k.find? now key = none ↔ ∀ slot ∈ k.liveSlots now, slot.entry.key ≠ key := by
  rw [Option.eq_none_iff_forall_ne_some]
  constructor
  · intro hn slot hs hkey
    exact hn slot.entry (h.find?_eq_some_iff.2 ⟨slot, hs, rfl, hkey⟩)
  · intro hne e he
    obtain ⟨slot, hs, rfl, hkey⟩ := h.find?_eq_some_iff.1 he
    exact hne slot hs hkey

theorem contains_iff (h : k.Indexed) : k.contains now key = true ↔
    k.poisoned = false ∧ ∃ slot ∈ k.liveSlots now, slot.entry.key = key := by
  rw [contains, Bool.and_eq_true, Bool.not_eq_true', Option.isSome_iff_ne_none, ne_eq,
    h.find?_eq_none_iff]
  push Not
  rfl

theorem signs (h : k.Indexed) (vault : Vault) (now : Nat) (key : PublicKey) (data : List UInt8)
    (flags : Nat) (calls : List VaultCall) :
    k.poisoned = true ∧ k.sign now vault key data flags calls = .error .poisoned calls ∨
    (∀ slot ∈ k.liveSlots now, slot.entry.key ≠ key) ∧
      k.sign now vault key data flags calls = .error .keyNotFound calls ∨
    ∃ slot ∈ k.liveSlots now, slot.entry.key = key ∧ k.sign now vault key data flags calls =
      if slot.entry.confirm then .error .confirmationUnavailable calls
      else slot.entry.signer.sign vault data flags calls := by
  cases hw : k.poisoned with
  | true => exact .inl ⟨rfl, sign_of_poisoned vault data flags calls hw⟩
  | false =>
    cases hf : k.find? now key with
    | none =>
      exact .inr (.inl ⟨h.find?_eq_none_iff.1 hf, sign_of_absent vault data flags calls hw hf⟩)
    | some e =>
      obtain ⟨slot, hs, rfl, hkey⟩ := h.find?_eq_some_iff.1 hf
      refine .inr (.inr ⟨slot, hs, hkey, ?_⟩)
      cases hc : slot.entry.confirm with
      | true => exact sign_of_confirm vault data flags calls hw hf hc
      | false => exact sign_of_live vault data flags calls hw hf hc

theorem exact (h : k.Indexed) : k.Exact where
  contains _ _ := h.contains_iff
  signs := h.signs
  keeps key name slot hf hne := by
    cases hw : k.poisoned with
    | true => rwa [after_of_error (remove_of_poisoned hw key)]
    | false => exact (find?_remove hw key).2 ⟨hf, fun hsame => hne hsame.2⟩
  drops hw key name slot hf := by
    obtain ⟨b, k', hr, hk⟩ := h.remove hw key
    rw [after_of_ok hr] at hf
    exact ((hk.slots name slot).1 hf).2
  lists now all hall := by
    cases hw : k.poisoned with
    | true =>
      rw [identities, checkWhole, if_pos hw] at hall
      cases hall
    | false =>
      rw [Shows.identities_of_whole hw] at hall
      cases hall
      exact ⟨Shows.nodup_listed h now, fun _ _ => Shows.mem_listed⟩

end Indexed

theorem Arises.indexed (h : Arises fingerprintOf k) : k.Indexed := by
  induction h with
  | new order => exact nofun
  | call h vault now calls c ih => exact ih.run vault now calls c
  | poison h ih => exact ih

/-- Keys are matched exactly, whatever the fingerprints are and whatever was called before. -/
theorem exact_of_arises (h : Arises fingerprintOf k) : k.Exact :=
  h.indexed.exact

/-- Under one fingerprint for all keys, the second entry pushed out the first. -/
def collided : Keyring :=
  (addFrom 1 1 (plainEntry 2 "second" none)).after
    ((addFrom 0 0 (plainEntry 1 "first" none)).after ⟨fun _ => "", .empty, .byName, false⟩)

theorem exact_of_arises_of_collision : Arises (fun _ => "") collided ∧ collided.Exact ∧
    collided.contains 1 (plainKey 1) = false ∧ collided.contains 1 (plainKey 2) = true ∧
    ((remove (plainKey 1)).after collided).size 1 = 1 := by
  have hnew : Arises (fun _ => "") ⟨fun _ => "", .empty, .byName, false⟩ := .new _
  have hfirst := hnew.call (.signing []) 0 [] (.add 0 (plainEntry 1 "first" none))
  have hboth : Arises (fun _ => "") collided :=
    hfirst.call (.signing []) 1 [] (.add 1 (plainEntry 2 "second" none))
  exact ⟨hboth, exact_of_arises hboth, by decide, by decide, by decide⟩

end VaultAgent.Keyring
