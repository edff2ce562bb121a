import VaultAgent.Proofs.Keyring.Timetable

/-!
# Adding several entries

Entries that are added one after the other, at one time and to stay for good, take each other's places
where they have the same fingerprint. What is live from then on are the last of them under each
fingerprint, and what was live before under fingerprints that none of them has (`Takes`).
-/

namespace VaultAgent.Keyring

open VaultAgent.Action
open Ssh (PublicKey)

variable {fingerprintOf : PublicKey → String} {k k' : Keyring} {e e' : Entry} {es : List Entry}
  {slot : Slot} {now later : Nat}

/-- The entry is in the list, and none behind it has its fingerprint. -/
def LastOf (fingerprintOf : PublicKey → String) (es : List Entry) (e : Entry) : Prop :=
  ∃ before rest, es = before ++ e :: rest ∧
    ∀ other ∈ rest, fingerprintOf other.key ≠ fingerprintOf e.key

theorem not_lastOf_nil : ¬ LastOf fingerprintOf [] e := by
  rintro ⟨before, rest, h, -⟩
  exact List.append_ne_nil_of_right_ne_nil before (List.cons_ne_nil e rest) h.symm

theorem lastOf_cons : LastOf fingerprintOf (e' :: es) e ↔
    (e = e' ∧ ∀ other ∈ es, fingerprintOf other.key ≠ fingerprintOf e.key) ∨
      LastOf fingerprintOf es e := by
  constructor
  · rintro ⟨before, rest, h, hrest⟩
    rcases List.cons_eq_append_iff.1 h with ⟨rfl, h⟩ | ⟨before, rfl, rfl⟩
    · obtain ⟨rfl, rfl⟩ := List.cons.inj h
      exact .inl ⟨rfl, hrest⟩
    · exact .inr ⟨before, rest, rfl, hrest⟩
  · rintro (⟨rfl, hrest⟩ | ⟨before, rest, rfl, hrest⟩)
    · exact ⟨[], es, rfl, hrest⟩
    · exact ⟨e' :: before, rest, rfl, hrest⟩

/-- The second keyring comes of the first by adding these entries at a time. -/
structure Takes (k k' : Keyring) (now : Nat) (es : List Entry) : Prop where
  fingerprints : k'.fingerprintOf = k.fingerprintOf
  whole : k'.poisoned = false
  indexed : k'.Indexed
  live : ∀ later, now ≤ later → ∀ slot, slot ∈ k'.liveSlots later ↔
    (LastOf k.fingerprintOf es slot.entry ∧ slot.expiresAt = none) ∨
      slot ∈ k.liveSlots later ∧ ∀ e ∈ es, k.fingerprintOf e.key ≠ k.fingerprintOf slot.entry.key

/-- From the time on at which an entry is added it is live, beside what was live under other
fingerprints. -/
theorem mem_liveSlots_add (hi : k.Indexed) (hw : k.poisoned = false) (he : e.lifetime = none)
    (hle : now ≤ later) : slot ∈ ((add now e).after k).liveSlots later ↔
      (slot.entry = e ∧ slot.expiresAt = none) ∨
        slot ∈ k.liveSlots later ∧ k.fingerprintOf e.key ≠ k.fingerprintOf slot.entry.key := by
  rw [add, after_of_ok (addFrom_of_whole hw (inReach_of_lasting he now) now), mem_liveSlots,
    mem_liveSlots]
  simp only [NameMap.find?_insert]
  have hslot : slotFrom now e = ⟨e, none⟩ := by rw [slotFrom, he]; rfl
  constructor
  · rintro ⟨name, hf, hl⟩
    split at hf
    · obtain rfl := Option.some.inj hf
      rw [hslot]
      exact .inl ⟨rfl, rfl⟩
    · rename_i hne
      obtain ⟨hf, -⟩ := find?_swept.1 hf
      exact .inr ⟨⟨name, hf, hl⟩, hi name slot hf ▸ hne⟩
  · obtain ⟨entry, expiresAt⟩ := slot
    rintro (⟨rfl, rfl⟩ | ⟨⟨name, hf, hl⟩, hne⟩)
    · exact ⟨k.fingerprintOf entry.key, by rw [if_pos rfl, hslot], rfl⟩
    · have hname : k.fingerprintOf e.key ≠ name := hi name _ hf ▸ hne
      exact ⟨name, by rw [if_neg hname, find?_swept.2 ⟨hf, isLive_of_le hle hl⟩], hl⟩

namespace Takes

theorem nil (hi : k.Indexed) (hw : k.poisoned = false) : k.Takes k now [] where
  fingerprints := rfl
  whole := hw
  indexed := hi
  live later hle slot := by
    simp [not_lastOf_nil]

theorem cons (hi : k.Indexed) (hw : k.poisoned = false) (he : e.lifetime = none)
    (h : ((add now e).after k).Takes k' now es) : k.Takes k' now (e :: es) := by
  have hfp : ((add now e).after k).fingerprintOf = k.fingerprintOf := by
    rw [add, after_of_ok (addFrom_of_whole hw (inReach_of_lasting he now) now)]
  refine ⟨h.fingerprints.trans hfp, h.whole, h.indexed, fun later hle slot => ?_⟩
  rw [h.live later hle, hfp, mem_liveSlots_add hi hw he hle, lastOf_cons, List.forall_mem_cons]
  constructor
  · rintro (⟨hlast, hx⟩ | ⟨⟨rfl, hx⟩ | ⟨hs, hne⟩, hes⟩)
    · exact .inl ⟨.inr hlast, hx⟩
    · exact .inl ⟨.inl ⟨rfl, hes⟩, hx⟩
    · exact .inr ⟨hs, hne, hes⟩
  · rintro (⟨⟨rfl, hes⟩ | hlast, hx⟩ | ⟨hs, hne, hes⟩)
    · exact .inr ⟨.inl ⟨rfl, hx⟩, hes⟩
    · exact .inl ⟨hlast, hx⟩
    · exact .inr ⟨.inr ⟨hs, hne⟩, hes⟩

end Takes

end VaultAgent.Keyring
