import VaultAgent.Proofs.Keyring.Timetable
import Mathlib.Data.List.Nodup

/-!
# When expired entries can be seen

Two keyrings that differ in expired slots only (`SameLive`) answer alike, with one exception: removing
a key also takes out an expired slot of it and says so. A call that sweeps the ring leaves the same
slots in both. So all answers to a history are the same if and only if, before the first such call, no
key is removed whose expired slot lingers in one of the two rings only (`replies_eq_iff`). Of identities
with one comment it cannot be told which comes first in a list: no two tables need agree on that.
-/

namespace VaultAgent.Keyring

open VaultAgent.Action
open Ssh (PublicKey)

variable {k k' : Keyring} {time now : Nat} {key other : PublicKey} {e : Entry} {c : Call}
  {vault : Vault} {calls : List VaultCall}

/-- The keyrings differ in no more than slots that are expired at the time. -/
structure SameLive (k k' : Keyring) (time : Nat) : Prop where
  fingerprints : k'.fingerprintOf = k.fingerprintOf
  poisoned : k'.poisoned = k.poisoned
  slots : ∀ name slot, slot.isLive time = true →
    (k.slots.find? name = some slot ↔ k'.slots.find? name = some slot)

/-- There is an entry of this key, live or not. -/
def Holds (k : Keyring) (key : PublicKey) : Prop :=
  ∃ slot, k.slots.find? (k.fingerprintOf key) = some slot ∧ slot.entry.key = key

/-- There is an entry of this key, which is expired. -/
def Lingers (k : Keyring) (time : Nat) (key : PublicKey) : Prop :=
  ∃ slot, k.slots.find? (k.fingerprintOf key) = some slot ∧ slot.entry.key = key ∧
    slot.isLive time = false

/-- An expired entry of the key is in one of the two keyrings only. -/
def LingersInOne (k k' : Keyring) (time : Nat) (key : PublicKey) : Prop :=
  ¬ (k.Lingers time key ↔ k'.Lingers time key)

/-! ## Removing -/

theorem holds_iff (time : Nat) :
    k.Holds key ↔ (∃ e, k.find? time key = some e) ∨ k.Lingers time key := by
  constructor
  · rintro ⟨⟨e, expiresAt⟩, hf, hkey⟩
    cases hl : Slot.isLive time ⟨e, expiresAt⟩ with
    | true => exact .inl ⟨e, find?_eq_some.2 ⟨expiresAt, hf, hl, hkey⟩⟩
    | false => exact .inr ⟨_, hf, hkey, hl⟩
  · rintro (⟨e, he⟩ | ⟨slot, hf, hkey, -⟩)
    · obtain ⟨expiresAt, hf, -, hkey⟩ := find?_eq_some.1 he
      exact ⟨_, hf, hkey⟩
    · exact ⟨slot, hf, hkey⟩

theorem not_lingers_of_find? (h : k.find? time key = some e) : ¬ k.Lingers time key := by
  rintro ⟨slot, hf, -, hl⟩
  obtain ⟨expiresAt, hf', hl', -⟩ := find?_eq_some.1 h
  obtain rfl := Option.some.inj (hf.symm.trans hf')
  rw [hl'] at hl
  cases hl

theorem outcome_remove (hw : k.poisoned = false) (key : PublicKey) :
    ∃ b, (remove key).outcome k = .ok b ∧ (b = true ↔ k.Holds key) := by
  rcases remove_of_whole hw key with ⟨slot, hf, hkey, hr⟩ | ⟨hne, hr⟩
  · exact ⟨true, outcome_of_ok hr, iff_of_true rfl ⟨slot, hf, hkey⟩⟩
  · refine ⟨false, outcome_of_ok hr, iff_of_false nofun ?_⟩
    rintro ⟨slot, hf, hkey⟩
    exact hne slot hf hkey

theorem lingers_remove (hw : k.poisoned = false) (key other : PublicKey) :
    ((remove key).after k).Lingers time other ↔ k.Lingers time other ∧ other ≠ key := by
  unfold Lingers
  simp only [fingerprintOf_remove hw, find?_remove hw]
  constructor
  · rintro ⟨slot, ⟨hf, hnot⟩, hkey, hl⟩
    exact ⟨⟨slot, hf, hkey, hl⟩, fun hok => hnot ⟨hok ▸ rfl, hkey.trans hok⟩⟩
  · rintro ⟨⟨slot, hf, hkey, hl⟩, hok⟩
    exact ⟨slot, ⟨hf, fun hsame => hok (hkey.symm.trans hsame.2)⟩, hkey, hl⟩

theorem lingersInOne_remove (hw : k.poisoned = false) (hw' : k'.poisoned = false)
    (key other : PublicKey) :
    LingersInOne ((remove key).after k) ((remove key).after k') time other ↔
      LingersInOne k k' time other ∧ other ≠ key := by
  unfold LingersInOne
  rw [lingers_remove hw, lingers_remove hw']
  by_cases hok : other = key <;> simp [hok]

/-! ## Keyrings with the same live slots -/

/-- The calls that leave no expired slot behind. An addition that breaks off is none. -/
def Call.sweeps : Call → Bool
  | .add start e => InReach start e
  | .removeAll => true
  | _ => false

/-- A ring that was left half changed stays as it is. -/
theorem keyring_run_of_poisoned (hp : k.poisoned = true) :
    (c.run vault now k calls).2.1 = k := by
  cases c with
  | add start e =>
    rcases addFrom_cases start now e k with ⟨fault, ha⟩ | ⟨hw, -⟩
    · exact after_of_error ha
    · rw [hp] at hw
      cases hw
  | remove key => exact after_of_error (remove_of_poisoned hp key)
  | removeAll => exact after_of_error (removeAll_of_poisoned hp now)
  | _ => rfl

theorem keyring_run_of_asks (hc : c.sweeps = false) (hr : ¬ ∃ key, c = .remove key) :
    (c.run vault now k calls).2.1 = k := by
  cases c with
  | add start e => exact after_of_error (addFrom_of_not_inReach (of_decide_eq_false hc) now k)
  | remove key => exact absurd ⟨key, rfl⟩ hr
  | removeAll => cases hc
  | _ => rfl

theorem fingerprintOf_run : (c.run vault now k calls).2.1.fingerprintOf = k.fingerprintOf := by
  cases hw : k.poisoned with
  | true => rw [keyring_run_of_poisoned hw]
  | false =>
    cases c with
    | add start e =>
      show ((addFrom start now e).after k).fingerprintOf = _
      rcases addFrom_cases start now e k with ⟨fault, ha⟩ | ⟨-, hr⟩
      · rw [after_of_error ha]
      · rw [after_of_ok (addFrom_of_whole hw hr now)]
    | remove key => exact fingerprintOf_remove hw key
    | removeAll =>
      show ((removeAll now).after k).fingerprintOf = _
      rw [after_of_ok (removeAll_of_whole hw now)]
    | _ => rfl

theorem poisoned_run : (c.run vault now k calls).2.1.poisoned = k.poisoned := by
  cases hw : k.poisoned with
  | true => rw [keyring_run_of_poisoned hw, hw]
  | false =>
    cases c with
    | add start e =>
      show ((addFrom start now e).after k).poisoned = false
      rcases addFrom_cases start now e k with ⟨fault, ha⟩ | ⟨-, hr⟩
      · rw [after_of_error ha, hw]
      · rw [after_of_ok (addFrom_of_whole hw hr now), hw]
    | remove key => exact (poisoned_remove hw key).trans hw
    | removeAll =>
      show ((removeAll now).after k).poisoned = false
      rw [after_of_ok (removeAll_of_whole hw now), hw]
    | _ => exact hw

/-! ## Replies -/

/-- The replies are the same, or list the same identities in an order that goes by the comments. -/
inductive Reply.Same : Reply → Reply → Prop
  | same (r : Reply) : Same r r
  | listed {all all' : List Identity} (h : all.Perm all')
    (hs : all.Pairwise (·.comment ≤ ·.comment)) (hs' : all'.Pairwise (·.comment ≤ ·.comment)) :
    Same (.identities (.ok all)) (.identities (.ok all'))

/-- The replies are the same, or both tell of a removal. -/
inductive Reply.Alike : Reply → Reply → Prop
  | same {r r' : Reply} (h : r.Same r') : Alike r r'
  | removed (b b' : Bool) : Alike (.removed (.ok b)) (.removed (.ok b'))

namespace Reply

theorem Same.of_eq {r r' : Reply} (h : r = r') : r.Same r' :=
  h ▸ .same r

theorem same_removed_iff {there there' : Except KeyringError Bool} :
    Same (.removed there) (.removed there') ↔ there = there' := by
  constructor
  · intro h
    cases h
    rfl
  · rintro rfl
    exact .same _

/-- No two identities in a list have one comment. -/
def Distinct (r : Reply) : Prop :=
  ∀ all, r = .identities (.ok all) → (all.map (·.comment)).Nodup

/-- The comments alone say the order then. -/
theorem Same.eq_of_distinct {r r' : Reply} (h : r.Same r') (hd : r.Distinct) : r = r' := by
  cases h with
  | same => rfl
  | @listed all all' h hs hs' =>
    have hnodup := hd all rfl
    have hall : all = all' := by
      refine h.eq_of_pairwise (fun a b ha hb hab hba => ?_) hs hs'
      have hcomment : a.comment = b.comment := String.le_antisymm hab hba
      exact List.inj_on_of_nodup_map hnodup ha (h.mem_iff.2 hb) hcomment
    rw [hall]

theorem eq_iff_of_distinct {replies replies' : List Reply} (hd : ∀ r ∈ replies, r.Distinct) :
    replies = replies' ↔ List.Forall₂ Same replies replies' := by
  constructor
  · rintro rfl
    exact List.forall₂_same.2 fun r _ => .same r
  · intro h
    induction h with
    | nil => rfl
    | cons h _ ih =>
      obtain ⟨hr, hrest⟩ := List.forall_mem_cons.1 hd
      rw [h.eq_of_distinct hr, ih hrest]

end Reply

/-! ## Two keyrings -/

namespace SameLive

theorem swept_eq (h : k.SameLive k' time) (hle : time ≤ now) : k.swept now = k'.swept now := by
  refine NameMap.ext fun name => Option.ext fun slot => ?_
  rw [find?_swept, find?_swept]
  exact and_congr_left fun hl => h.slots name slot (isLive_of_le hle hl)

theorem liveSlots_eq (h : k.SameLive k' time) (hle : time ≤ now) :
    k.liveSlots now = k'.liveSlots now := by
  have hswept (k : Keyring) : k.liveSlots now = (k.swept now).toList.map (·.2) := by
    rw [liveSlots, List.filter_map]
    rfl
  rw [hswept, hswept, h.swept_eq hle]

theorem find?_eq (h : k.SameLive k' time) (hle : time ≤ now) (key : PublicKey) :
    k.find? now key = k'.find? now key := by
  ext e
  rw [find?_eq_some, find?_eq_some, h.fingerprints]
  refine exists_congr fun expiresAt => and_congr_left fun hl => ?_
  exact h.slots _ _ (isLive_of_le hle hl.1)

theorem checkWhole_eq (h : k.SameLive k' time) : k.checkWhole = k'.checkWhole := by
  rw [checkWhole, checkWhole, h.poisoned]

/-- The two rings tell removals of a key apart if it lingers in one of them only. -/
theorem outcome_remove_eq_iff (h : k.SameLive k' time) (hw : k.poisoned = false) :
    (remove key).outcome k = (remove key).outcome k' ↔ ¬ LingersInOne k k' time key := by
  obtain ⟨b, hb, hbk⟩ := outcome_remove hw key
  obtain ⟨b', hb', hbk'⟩ := outcome_remove (h.poisoned.trans hw) key
  rw [LingersInOne, not_not, hb, hb', Except.ok.injEq, Bool.eq_iff_iff, hbk, hbk', holds_iff time,
    holds_iff time, ← h.find?_eq le_rfl]
  cases hf : k.find? time key with
  | none => simp
  | some e =>
    have hl := not_lingers_of_find? hf
    have hl' := not_lingers_of_find? ((h.find?_eq le_rfl key).symm.trans hf)
    simp [hl, hl']

/-! ### One call -/

theorem outcome_addFrom_eq (h : k.SameLive k' time) (hle : time ≤ now) (start : Nat) (e : Entry) :
    (Keyring.addFrom start now e).outcome k = (Keyring.addFrom start now e).outcome k' := by
  by_cases hr : InReach start e
  · cases hw : k.poisoned with
    | true =>
      rw [outcome_of_error (addFrom_of_poisoned hw hr now),
        outcome_of_error (addFrom_of_poisoned (h.poisoned.trans hw) hr now)]
    | false =>
      rw [outcome_of_ok (addFrom_of_whole hw hr now),
        outcome_of_ok (addFrom_of_whole (h.poisoned.trans hw) hr now), h.swept_eq hle, h.fingerprints]
  · rw [outcome_of_error (addFrom_of_not_inReach hr now k),
      outcome_of_error (addFrom_of_not_inReach hr now k')]

theorem outcome_removeAll_eq (h : k.SameLive k' time) (hle : time ≤ now) :
    (Keyring.removeAll now).outcome k = (Keyring.removeAll now).outcome k' := by
  cases hw : k.poisoned with
  | true =>
    rw [outcome_of_error (removeAll_of_poisoned hw now),
      outcome_of_error (removeAll_of_poisoned (h.poisoned.trans hw) now)]
  | false =>
    rw [outcome_of_ok (removeAll_of_whole hw now),
      outcome_of_ok (removeAll_of_whole (h.poisoned.trans hw) now), size, size, h.liveSlots_eq hle]

/-- Both tables list what is live, each in its order. -/
theorem identities_same (h : k.SameLive k' time) (hle : time ≤ now) :
    Reply.Same (.identities (k.identities now)) (.identities (k'.identities now)) := by
  cases hw : k.poisoned with
  | true =>
    have hw' := h.poisoned.trans hw
    rw [Keyring.identities, Keyring.identities, checkWhole, checkWhole, if_pos hw, if_pos hw']
    exact .same _
  | false =>
    rw [Shows.identities_of_whole hw, Shows.identities_of_whole (h.poisoned.trans hw)]
    have hperm : (Shows.listed k now).Perm (Shows.listed k' now) :=
      (Shows.listed_perm k now).trans
        (h.liveSlots_eq hle ▸ (Shows.listed_perm k' now).symm)
    exact .listed hperm (Shows.sorted_listed k now) (Shows.sorted_listed k' now)

theorem reply_same (h : k.SameLive k' time) (hle : time ≤ now) (hc : ∀ key, c ≠ .remove key) :
    (c.run vault now k calls).1.Same (c.run vault now k' calls).1 := by
  cases c with
  | add start e => exact .of_eq (congrArg Reply.added (h.outcome_addFrom_eq hle start e))
  | remove key => exact absurd rfl (hc key)
  | removeAll => exact .of_eq (congrArg Reply.removedAll (h.outcome_removeAll_eq hle))
  | identities => exact h.identities_same hle
  | contains key =>
    have hcontains : k.contains now key = k'.contains now key := by
      rw [Keyring.contains, Keyring.contains, h.poisoned, h.find?_eq hle]
    exact .of_eq (congrArg Reply.contains hcontains)
  | size =>
    have hsize : k.size now = k'.size now := by
      rw [Keyring.size, Keyring.size, h.liveSlots_eq hle]
    exact .of_eq (congrArg Reply.size hsize)
  | sign key data flags =>
    have hsign : k.sign now vault key data flags = k'.sign now vault key data flags := by
      rw [Keyring.sign, Keyring.sign, h.checkWhole_eq, h.find?_eq hle]
    exact .of_eq (congrArg Reply.signed (congrArg (Action.outcome · calls) hsign))

theorem calls_eq (h : k.SameLive k' time) (hle : time ≤ now) :
    (c.run vault now k calls).2.2 = (c.run vault now k' calls).2.2 := by
  cases c with
  | sign key data flags =>
    show (k.sign now vault key data flags).after calls = (k'.sign now vault key data flags).after calls
    rw [Keyring.sign, Keyring.sign, h.checkWhole_eq, h.find?_eq hle]
  | _ => rfl

/-- A call that sweeps leaves the same slots in both rings. -/
theorem slots_eq_of_sweeps (h : k.SameLive k' time) (hle : time ≤ now) (hw : k.poisoned = false)
    (hc : c.sweeps = true) :
    (c.run vault now k calls).2.1.slots = (c.run vault now k' calls).2.1.slots := by
  have hw' := h.poisoned.trans hw
  cases c with
  | add start e =>
    have hr : InReach start e := of_decide_eq_true hc
    show ((Keyring.addFrom start now e).after k).slots = ((Keyring.addFrom start now e).after k').slots
    rw [after_of_ok (addFrom_of_whole hw hr now), after_of_ok (addFrom_of_whole hw' hr now),
      h.swept_eq hle, h.fingerprints]
  | removeAll =>
    show ((Keyring.removeAll now).after k).slots = ((Keyring.removeAll now).after k').slots
    rw [after_of_ok (removeAll_of_whole hw now), after_of_ok (removeAll_of_whole hw' now)]
  | _ => cases hc

/-- A slot that one ring loses to a removal and the other keeps was expired. -/
theorem remove (h : k.SameLive k' time) (hw : k.poisoned = false) (key : PublicKey) :
    ((Keyring.remove key).after k).SameLive ((Keyring.remove key).after k') time := by
  have hw' := h.poisoned.trans hw
  refine ⟨?_, ?_, fun name slot hl => ?_⟩
  · rw [fingerprintOf_remove hw, fingerprintOf_remove hw', h.fingerprints]
  · rw [poisoned_remove hw, poisoned_remove hw', h.poisoned]
  · rw [find?_remove hw, find?_remove hw', h.slots name slot hl, h.fingerprints]

theorem step (h : k.SameLive k' time) (hle : time ≤ now) (vault : Vault) (c : Call)
    (calls : List VaultCall) :
    (c.run vault now k calls).2.1.SameLive (c.run vault now k' calls).2.1 time := by
  cases hw : k.poisoned with
  | true =>
    rwa [keyring_run_of_poisoned hw, keyring_run_of_poisoned (h.poisoned.trans hw)]
  | false =>
    cases hc : c.sweeps with
    | true =>
      refine ⟨?_, ?_, fun name slot _ => by rw [h.slots_eq_of_sweeps hle hw hc]⟩
      · rw [fingerprintOf_run, fingerprintOf_run, h.fingerprints]
      · rw [poisoned_run, poisoned_run, h.poisoned]
    | false =>
      by_cases hr : ∃ key, c = .remove key
      · obtain ⟨key, rfl⟩ := hr
        exact h.remove hw key
      · rwa [keyring_run_of_asks hc hr, keyring_run_of_asks hc hr]

theorem reply_same_of_poisoned (h : k.SameLive k' time) (hle : time ≤ now) (hp : k.poisoned = true)
    (c : Call) : (c.run vault now k calls).1.Same (c.run vault now k' calls).1 := by
  by_cases hc : ∃ key, c = .remove key
  · obtain ⟨key, rfl⟩ := hc
    refine Reply.same_removed_iff.2 ?_
    rw [outcome_of_error (remove_of_poisoned hp key),
      outcome_of_error (remove_of_poisoned (h.poisoned.trans hp) key)]
  · exact h.reply_same hle fun key hk => hc ⟨key, hk⟩

theorem alike (h : k.SameLive k' time) (hle : time ≤ now) (c : Call) :
    Reply.Alike (c.run vault now k calls).1 (c.run vault now k' calls).1 := by
  by_cases hc : ∃ key, c = .remove key
  · cases hw : k.poisoned with
    | true => exact .same (h.reply_same_of_poisoned hle hw c)
    | false =>
      obtain ⟨key, rfl⟩ := hc
      obtain ⟨b, hb, -⟩ := outcome_remove hw key
      obtain ⟨b', hb', -⟩ := outcome_remove (h.poisoned.trans hw) key
      show Reply.Alike (.removed ((Keyring.remove key).outcome k))
        (.removed ((Keyring.remove key).outcome k'))
      rw [hb, hb']
      exact .removed b b'
  · exact .same (h.reply_same hle fun key hk => hc ⟨key, hk⟩)

/-- With the same slots nothing lingers in one of them only. -/
theorem not_lingersInOne (h : k.SameLive k' time) (hslots : k.slots = k'.slots) (key : PublicKey) :
    ¬ LingersInOne k k' time key := by
  rw [LingersInOne, not_not, Lingers, Lingers, h.fingerprints, hslots]

end SameLive

/-! ## Histories -/

theorem runAll_cons (rest : List (Nat × Call)) : runAll vault ((now, c) :: rest) k calls =
    ((c.run vault now k calls).1 ::
        (runAll vault rest (c.run vault now k calls).2.1 (c.run vault now k calls).2.2).1,
      (runAll vault rest (c.run vault now k calls).2.1 (c.run vault now k calls).2.2).2) :=
  rfl

theorem alike_runAll (h : k.SameLive k' time) {history : List (Nat × Call)}
    (hlater : ∀ x ∈ history, time ≤ x.1) (vault : Vault) (calls : List VaultCall) :
    List.Forall₂ Reply.Alike (runAll vault history k calls).1 (runAll vault history k' calls).1 ∧
      (runAll vault history k calls).2.2 = (runAll vault history k' calls).2.2 := by
  induction history generalizing k k' calls with
  | nil => exact ⟨.nil, rfl⟩
  | cons x rest ih =>
    obtain ⟨now, c⟩ := x
    obtain ⟨hle, hrest⟩ := List.forall_mem_cons.1 hlater
    obtain ⟨hreplies, hcalls⟩ := ih (h.step hle vault c calls) hrest (c.run vault now k calls).2.2
    rw [runAll_cons, runAll_cons, ← h.calls_eq hle]
    exact ⟨.cons (h.alike hle c) hreplies, hcalls⟩

/-- The calls before the first that leaves no expired slot behind. -/
def beforeSweep (history : List (Nat × Call)) : List (Nat × Call) :=
  history.takeWhile (!·.2.sweeps)

theorem beforeSweep_of_sweeps (hc : c.sweeps = true) (rest : List (Nat × Call)) :
    beforeSweep ((now, c) :: rest) = [] := by
  simp [beforeSweep, hc]

theorem beforeSweep_cons (hc : c.sweeps = false) (rest : List (Nat × Call)) :
    beforeSweep ((now, c) :: rest) = (now, c) :: beforeSweep rest := by
  simp [beforeSweep, hc]

/-- A removal settles the matter for its own key only. -/
theorem forall_removed_cons {P : PublicKey → Prop} (now : Nat) (key : PublicKey)
    (rest : List (Nat × Call)) :
    (∀ now' other, (now', Call.remove other) ∈ beforeSweep ((now, .remove key) :: rest) → ¬ P other) ↔
      ¬ P key ∧ ∀ now' other, (now', Call.remove other) ∈ beforeSweep rest →
        ¬ (P other ∧ other ≠ key) := by
  have hremove : (Call.remove key).sweeps = false := rfl
  simp only [beforeSweep_cons hremove, List.mem_cons, Prod.mk.injEq, Call.remove.injEq]
  constructor
  · intro hall
    exact ⟨hall now key (.inl ⟨rfl, rfl⟩), fun now' other hmem hp =>
      hall now' other (.inr hmem) hp.1⟩
  · rintro ⟨hkey, hall⟩ now' other (⟨-, rfl⟩ | hmem) hp
    · exact hkey hp
    · exact hall now' other hmem ⟨hp, fun hok => hkey (hok ▸ hp)⟩

theorem forall_removed_cons_of_asks {P : PublicKey → Prop} (hc : c.sweeps = false)
    (hr : ¬ ∃ key, c = .remove key) (rest : List (Nat × Call)) :
    (∀ now' other, (now', Call.remove other) ∈ beforeSweep ((now, c) :: rest) → ¬ P other) ↔
      ∀ now' other, (now', Call.remove other) ∈ beforeSweep rest → ¬ P other := by
  rw [beforeSweep_cons hc]
  refine forall₂_congr fun now' other => imp_congr_left ?_
  rw [List.mem_cons]
  exact or_iff_right fun heq => hr ⟨other, (Prod.mk.inj heq).2.symm⟩

theorem runAll_same_iff (h : k.SameLive k' time) {history : List (Nat × Call)}
    (hlater : ∀ x ∈ history, time ≤ x.1) (vault : Vault) (calls : List VaultCall) :
    List.Forall₂ Reply.Same (runAll vault history k calls).1 (runAll vault history k' calls).1 ↔
      k.poisoned = true ∨
        ∀ now key, (now, Call.remove key) ∈ beforeSweep history → ¬ LingersInOne k k' time key := by
  induction history generalizing k k' calls with
  | nil => exact iff_of_true .nil (.inr nofun)
  | cons x rest ih =>
    obtain ⟨now, c⟩ := x
    obtain ⟨hle, hrest⟩ := List.forall_mem_cons.1 hlater
    have hnext := h.step hle vault c calls
    rw [runAll_cons, runAll_cons, List.forall₂_cons, ← h.calls_eq hle, ih hnext hrest, poisoned_run]
    cases hw : k.poisoned with
    | true => exact iff_of_true ⟨h.reply_same_of_poisoned hle hw c, .inl rfl⟩ (.inl rfl)
    | false =>
      have hw' := h.poisoned.trans hw
      simp only [Bool.false_eq_true, false_or]
      by_cases hr : ∃ key, c = .remove key
      · obtain ⟨key, rfl⟩ := hr
        have hreply : (Call.run vault now k calls (.remove key)).1.Same
            (Call.run vault now k' calls (.remove key)).1 ↔ ¬ LingersInOne k k' time key :=
          Reply.same_removed_iff.trans (h.outcome_remove_eq_iff hw)
        have hleft (other : PublicKey) :
            LingersInOne (Call.run vault now k calls (.remove key)).2.1
              (Call.run vault now k' calls (.remove key)).2.1 time other ↔
            LingersInOne k k' time other ∧ other ≠ key :=
          lingersInOne_remove hw hw' key other
        simp only [hreply, hleft]
        exact (forall_removed_cons now key rest).symm
      · rw [and_iff_right (h.reply_same hle fun key hk => hr ⟨key, hk⟩)]
        cases hc : c.sweeps with
        | true =>
          -- from here on both have the same slots
          have hslots : (c.run vault now k calls).2.1.slots = (c.run vault now k' calls).2.1.slots :=
            h.slots_eq_of_sweeps hle hw hc
          rw [beforeSweep_of_sweeps hc]
          exact iff_of_true (fun _ key _ => hnext.not_lingersInOne hslots key) nofun
        | false =>
          rw [keyring_run_of_asks hc hr, keyring_run_of_asks hc hr]
          exact (forall_removed_cons_of_asks hc hr rest).symm

/-- Keyrings that differ in expired entries only make the same calls to the vault and give the same
answers, those to removals apart; of identities with one comment each may list another one first. The
answers to removals too are the same if, and only if, no key is removed of which an expired entry
lingers in one of the two only; a call that leaves no expired entry behind ends the difference. -/
theorem replies_eq_iff (h : k.SameLive k' time) {history : List (Nat × Call)}
    (hlater : ∀ x ∈ history, time ≤ x.1) (vault : Vault) (calls : List VaultCall) :
    ∃ replies replies', (runAll vault history k calls).1 = replies ∧
      (runAll vault history k' calls).1 = replies' ∧
      (runAll vault history k calls).2.2 = (runAll vault history k' calls).2.2 ∧
      List.Forall₂ Reply.Alike replies replies' ∧
      (List.Forall₂ Reply.Same replies replies' ↔ k.poisoned = true ∨
        ∀ now key, (now, Call.remove key) ∈ beforeSweep history → ¬ LingersInOne k k' time key) ∧
      ((∀ r ∈ replies, r.Distinct) → (replies = replies' ↔ k.poisoned = true ∨
        ∀ now key, (now, Call.remove key) ∈ beforeSweep history →
          ¬ LingersInOne k k' time key)) := by
  obtain ⟨halike, hcalls⟩ := alike_runAll h hlater vault calls
  have hiff := runAll_same_iff h hlater vault calls
  exact ⟨_, _, rfl, rfl, hcalls, halike, hiff, fun hd => (Reply.eq_iff_of_distinct hd).trans hiff⟩

/-- A keyring with one entry, whose time had come as soon as it was added. -/
def lapsed : Keyring :=
  (addFrom 0 0 (plainEntry 1 "short" (some 0))).after .empty

theorem find?_lapsed {name : String} {slot : Slot} : lapsed.slots.find? name = some slot ↔
    (plainKey 1).fingerprint = name ∧ ⟨plainEntry 1 "short" (some 0), some 0⟩ = slot := by
  have hslots : lapsed.slots = NameMap.empty.insert (plainKey 1).fingerprint
      ⟨plainEntry 1 "short" (some 0), some 0⟩ :=
    congrArg slots (after_of_ok (addFrom_of_whole rfl (by decide) 0))
  rw [hslots, NameMap.find?_insert]
  split <;> simp_all

theorem sameLive_lapsed : lapsed.SameLive .empty 0 where
  fingerprints := rfl
  poisoned := rfl
  slots name slot hl := by
    refine iff_of_false (fun hf => ?_) nofun
    obtain ⟨-, rfl⟩ := find?_lapsed.1 hf
    cases hl

theorem lingers_lapsed : lapsed.Lingers 0 key ↔ key = plainKey 1 := by
  constructor
  · rintro ⟨slot, hf, rfl, -⟩
    obtain ⟨-, rfl⟩ := find?_lapsed.1 hf
    rfl
  · rintro rfl
    exact ⟨_, find?_lapsed.2 ⟨rfl, rfl⟩, rfl, rfl⟩

theorem not_lingers_empty : ¬ empty.Lingers time key := nofun

/-- The key of the entry is removed only after another entry was added. -/
def afterLapse : List (Nat × Call) :=
  [(0, .size), (1, .sign (plainKey 1) [7] 0), (2, .contains (plainKey 1)), (2, .remove (plainKey 2)),
    (3, .add 3 (plainEntry 2 "long" none)), (4, .remove (plainKey 1)), (5, .removeAll)]

theorem replies_eq_of_lapsed : lapsed.SameLive .empty 0 ∧ (∀ x ∈ afterLapse, 0 ≤ x.1) ∧
    (runAll (.signing [7]) afterLapse lapsed []).1 = (runAll (.signing [7]) afterLapse .empty []).1 := by
  have hlater : ∀ x ∈ afterLapse, 0 ≤ x.1 := fun _ _ => Nat.zero_le _
  have hremoved : ∀ now key, (now, Call.remove key) ∈ beforeSweep afterLapse →
      ¬ LingersInOne lapsed .empty 0 key := by
    intro now key hmem
    have hr : InReach 3 (plainEntry 2 "long" none) := inReach_of_lasting rfl 3
    have hkey : now = 2 ∧ key = plainKey 2 := by
      simpa [beforeSweep, afterLapse, Call.sweeps, hr] using hmem
    obtain ⟨-, rfl⟩ := hkey
    have hne : plainKey 2 ≠ plainKey 1 := by decide
    rw [LingersInOne, not_not, lingers_lapsed]
    exact iff_of_false hne not_lingers_empty
  obtain ⟨replies, replies', rfl, rfl, -, -, -, h⟩ :=
    replies_eq_iff sameLive_lapsed hlater (.signing [7]) []
  refine ⟨sameLive_lapsed, hlater, (h ?_).2 (.inr hremoved)⟩
  simp [afterLapse, runAll, Call.run, Reply.Distinct]

/-- A removal tells of an entry that had expired, where an empty keyring has none to tell of. -/
theorem removal_shows_expired_entry : ∃ k k' : Keyring, k.SameLive k' 0 ∧ k.poisoned = false ∧
    k.fingerprintOf = PublicKey.fingerprint ∧ (k.keys ∪ k'.keys).InjOn PublicKey.fingerprint ∧
    (remove (plainKey 1)).outcome k = .ok true ∧ (remove (plainKey 1)).outcome k' = .ok false := by
  refine ⟨lapsed, .empty, sameLive_lapsed, rfl, rfl, ?_, ?_, ?_⟩
  · have hkeys : ∀ key ∈ lapsed.keys ∪ empty.keys, key = plainKey 1 := by
      rintro _ (⟨name, slot, hf, rfl⟩ | ⟨name, slot, hf, rfl⟩)
      · obtain ⟨-, rfl⟩ := find?_lapsed.1 hf
        rfl
      · cases hf
    intro a ha b hb _
    rw [hkeys a ha, hkeys b hb]
  · obtain ⟨b, hb, hiff⟩ := outcome_remove (k := lapsed) rfl (plainKey 1)
    rw [hb, hiff.2 ⟨_, find?_lapsed.2 ⟨rfl, rfl⟩, rfl⟩]
  · rfl

end VaultAgent.Keyring
