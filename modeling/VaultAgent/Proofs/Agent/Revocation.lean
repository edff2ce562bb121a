import VaultAgent.Proofs.Agent.Reached

/-!
# What stays served

A removal finds the entries to drop by the keys in the records that it removes, and a reload only adds
entries. If the file was changed in between, an entry may be served under a name that is removed, or
for a record that is gone. Both are right just when the keys before were those that the file now
holds: `revoked_iff_of_removeSecret` and `liveKeys_eq_iff_of_serveStore` say so exactly.
-/

namespace VaultAgent.Agent

open Ssh (PublicKey)

variable {w w' : World} {now n : Nat} {name : String} {names : List String}

theorem find?_removedWith {m : Store.Records} {other : String} {r : Store.Record} :
    (m.removedWith name).find? other = some r ↔
      other ∈ (m.removedWith name).names ∧ m.find? other = some r := by
  rw [NameMap.mem_names, NameMap.contains_eq_true]
  unfold Store.Records.removedWith
  split
  · constructor
    · exact fun h => ⟨⟨r, h⟩, (Store.Records.find?_dependants.1 h).1⟩
    · rintro ⟨⟨r', h⟩, hf⟩
      obtain ⟨hf', hu⟩ := Store.Records.find?_dependants.1 h
      exact Store.Records.find?_dependants.2 ⟨hf, hu⟩
  · simp

/-- After a removal no live entry asks the vault for a secret of a removed name if, and only if, every
entry that did so before has a key that a removed record still holds. -/
theorem revoked_iff_of_removeSecret (h : Reached w) (hr : removeSecret name w = .ok names w')
    (time : Nat) : ∃ m, w.records = .ok m ∧
      ((∀ slot ∈ w'.agent.keyring.liveSlots time, slot.entry.signer.secretName ∉ names) ↔
        ∀ slot ∈ w.agent.keyring.liveSlots time, slot.entry.signer.secretName ∈ names →
          ∃ other r, other ∈ names ∧ m.find? other = some r ∧ keyOf? r = some slot.entry.key) := by
  obtain ⟨m, hm, rfl, hkeep⟩ := removeSecret_eq_ok h.steady hr
  refine ⟨m, hm, ?_⟩
  have hlive (slot : Slot) : slot ∈ w'.agent.keyring.liveSlots time ↔
      slot ∈ w.agent.keyring.liveSlots time ∧ Survives (m.removedWith name) slot := by
    rw [(hkeep.steady h.steady).mem_liveSlots, h.steady.mem_liveSlots]
    simp only [hkeep.slots, exists_and_right]
  constructor
  · intro hno slot hs hn
    by_contra hother
    refine hno slot ((hlive slot).2 ⟨hs, fun other r hf hk => hother ?_⟩) hn
    obtain ⟨hmem, hf⟩ := find?_removedWith.1 hf
    exact ⟨other, r, hmem, hf, hk⟩
  · intro hall slot hs hn
    obtain ⟨hs, hsurvives⟩ := (hlive slot).1 hs
    obtain ⟨other, r, hmem, hf, hk⟩ := hall slot hs hn
    exact hsurvives other r (find?_removedWith.2 ⟨hmem, hf⟩) hk

/-- An agent that has served the key under `a`, whatever has become of its file since. -/
def served (disk : Disk) : World :=
  Event.after (Event.after (World.fresh (.ofList [("a", onesRecord)])) (.call 0 .load))
    (.rewrite disk)

theorem reached_served (disk : Disk) : Reached (served disk) :=
  .step _ (.step _ (.start ..))

theorem revoked_iff_of_unchanged_file :
    Reached (served (Store.diskWith (.ofList [("a", onesRecord)]))) ∧ ∃ w' m,
      removeSecret "a" (served (Store.diskWith (.ofList [("a", onesRecord)]))) = .ok ["a"] w' ∧
      (served (Store.diskWith (.ofList [("a", onesRecord)]))).records = .ok m ∧
      ((∀ slot ∈ w'.agent.keyring.liveSlots 0, slot.entry.signer.secretName ∉ ["a"]) ↔
        ∀ slot ∈ (served (Store.diskWith (.ofList [("a", onesRecord)]))).agent.keyring.liveSlots 0,
          slot.entry.signer.secretName ∈ ["a"] →
            ∃ other r, other ∈ ["a"] ∧ m.find? other = some r ∧ keyOf? r = some slot.entry.key) := by
  have hr : removeSecret "a" (served (Store.diskWith (.ofList [("a", onesRecord)]))) =
    .ok ["a"] _ := Action.outcome_eq_ok.1 (by decide +kernel)
  have hreached := reached_served (Store.diskWith (.ofList [("a", onesRecord)]))
  obtain ⟨m, hm, h⟩ := revoked_iff_of_removeSecret hreached hr 0
  exact ⟨hreached, _, m, hr, hm, h⟩

/-- The key under `a` was changed in the file. The old one stays served when `a` is removed. -/
theorem removed_name_still_served : ∃ w w' name names, Reached w ∧
    removeSecret name w = .ok names w' ∧
      ∃ slot ∈ w'.agent.keyring.liveSlots 0, slot.entry.signer.secretName ∈ names := by
  have h : (removeSecret "a").outcome (served (Store.diskWith (.ofList [("a", twosRecord)]))) =
      .ok ["a"] ∧ ∃ slot ∈ ((removeSecret "a").after
        (served (Store.diskWith (.ofList [("a", twosRecord)])))).agent.keyring.liveSlots 0,
          slot.entry.signer.secretName ∈ ["a"] := by decide +kernel
  exact ⟨_, _, "a", ["a"], reached_served _, Action.outcome_eq_ok.1 h.1, h.2⟩

/-- After a reload the live keys are those of the records if, and only if, no two of these have one
fingerprint and every key that was live before has the fingerprint of one of them. -/
theorem liveKeys_eq_iff_of_serveStore (h : Reached w) (hs : serveStore now w = .ok n w')
    (time : Nat) : ∃ m, w.records = .ok m ∧ (w'.agent.keyring.liveKeys time = keysOf m ↔
      (keysOf m).InjOn PublicKey.fingerprint ∧ ∀ key ∈ w.agent.keyring.liveKeys time,
        ∃ other ∈ keysOf m, other.fingerprint = key.fingerprint) := by
  obtain ⟨m, k, hm, -, rfl, hgains⟩ := serveStore_eq_ok h.steady hs
  refine ⟨m, hm, ?_⟩
  rw [h.steady.liveKeys_eq, ← hgains.keys_eq_iff, ← hgains.steady.liveKeys_eq time]
  rfl

theorem liveKeys_eq_iff_of_unchanged_file :
    Reached (World.fresh (.ofList [("a", onesRecord)])) ∧ ∃ w',
      serveStore 0 (World.fresh (.ofList [("a", onesRecord)])) = .ok 1 w' ∧
      ∃ m, (World.fresh (.ofList [("a", onesRecord)])).records = .ok m ∧
        (w'.agent.keyring.liveKeys 0 = keysOf m ↔ (keysOf m).InjOn PublicKey.fingerprint ∧
          ∀ key ∈ (World.fresh (.ofList [("a", onesRecord)])).agent.keyring.liveKeys 0,
            ∃ other ∈ keysOf m, other.fingerprint = key.fingerprint) := by
  have hs : serveStore 0 (World.fresh (.ofList [("a", onesRecord)])) = .ok 1 _ :=
    Action.outcome_eq_ok.1 (by decide +kernel)
  have hreached : Reached (World.fresh (.ofList [("a", onesRecord)])) := .start ..
  exact ⟨hreached, _, hs, liveKeys_eq_iff_of_serveStore hreached hs 0⟩

/-- The file has lost its only record. Its key stays served after a reload. -/
theorem lost_record_still_served : ∃ w w' n, Reached w ∧ serveStore 0 w = .ok n w' ∧
    w.records = .ok .empty ∧ w'.agent.keyring.liveKeys 0 ≠ keysOf .empty := by
  have h : (serveStore 0).outcome (served (Store.diskWith .empty)) = .ok 0 ∧
      (served (Store.diskWith .empty)).records = .ok .empty ∧
      (((serveStore 0).after (served (Store.diskWith .empty))).agent.keyring.liveSlots 0).head?.isSome =
        true := by decide +kernel
  obtain ⟨slot, hslot⟩ := Option.isSome_iff_exists.1 h.2.2
  refine ⟨_, _, 0, reached_served _, Action.outcome_eq_ok.1 h.1, h.2.1, fun heq => ?_⟩
  have hkey : slot.entry.key ∈ keysOf .empty := heq ▸ ⟨slot, List.mem_of_head? hslot, rfl⟩
  obtain ⟨name, r, hf, -⟩ := hkey
  cases hf

end VaultAgent.Agent
