import VaultAgent.Proofs.Store.Chain
import VaultAgent.Proofs.Store.File

/-!
# What the operations on a store do

Each leaves the path of the store alone. On a file that works a change goes through: the records in
memory are then the changed ones, and so are those in the file (`Holds`). On any file a `Change` that
succeeds is written, and one that fails leaves the store as it was.
-/

namespace VaultAgent.Store

open VaultAgent.Action
open Relation (ReflTransGen)

variable {s : Store} {d d' : Disk} {w w' : Store × Disk} {m removed : Records} {name : String}
  {secret : Secret} {e : StoreError} {u : Unit}

/-- The file has these records and works. -/
def Holds (path : Path) (m : Records) (d : Disk) : Prop :=
  recordsAt path d = .ok m ∧ FileWorks path d

/-- The name of the secret is free, and its group is stored. -/
def Records.Accepts (m : Records) (secret : Secret) : Prop :=
  m.contains secret.name = false ∧
    ∀ group, secret.groupName? = some group → m.contains group = true

/-- The records with a new secret. -/
def Records.withSecret (m : Records) (secret : Secret) : Records :=
  m.insert secret.name (.ofSecret secret)

/-! ## Reading the file again -/

theorem reload_of_ok (h : recordsAt s.path d = .ok m) :
    reload (s, d) = .ok () ({ s with records := m }, d) := by
  have hr := outcome_eq_ok.1 h
  rw [asks_readRecords] at hr
  rw [reload, get_bind]
  exact bind_of_ok (onPart_of_ok hr)

theorem reload_of_error (h : recordsAt s.path d = .error e) : reload (s, d) = .error e (s, d) := by
  have hr := outcome_eq_error.1 h
  rw [asks_readRecords] at hr
  rw [reload, get_bind]
  exact bind_of_error (onPart_of_error hr)

/-! ## Changing the records -/

theorem persist_eq : persist (s, d) = onDisk (replaceFile s.path s.records.toDocument) (s, d) := by
  rw [persist, get_bind]

theorem persist_of_works (h : FileWorks s.path d) :
    ∃ d', persist (s, d) = .ok () (s, d') ∧ Holds s.path s.records d' := by
  obtain ⟨d', hw, hr, hf⟩ := h.replace s.records.toDocument
  refine ⟨d', ?_, recordsAt_of_read hr, hf⟩
  rw [persist_eq]
  exact onPart_of_ok hw

theorem persist_eq_ok (h : persist (s, d) = .ok u w') :
    w'.1 = s ∧ replaceFile s.path s.records.toDocument d = .ok () w'.2 := by
  rw [persist_eq] at h
  obtain ⟨d', hr, rfl⟩ := onPart_eq_ok.1 h
  exact ⟨rfl, hr⟩

/-- The file at a path could not be replaced. -/
def WriteFails (path : Path) (d : Disk) (e : StoreError) (d' : Disk) : Prop :=
  ∃ content cause, e = .io cause ∧ replaceFile path content d = .error cause d'

theorem persist_eq_error (h : persist (s, d) = .error e w') :
    w'.1 = s ∧ WriteFails s.path d e w'.2 := by
  rw [persist_eq] at h
  obtain ⟨cause, d', hr, rfl, rfl⟩ := onPart_eq_error.1 h
  exact ⟨rfl, _, cause, rfl, hr⟩

/-- A change that succeeds is made in memory and written. -/
theorem change_eq_ok {apply takeBack : Records → Records}
    (h : change apply takeBack (s, d) = .ok u w') :
    w'.1 = { s with records := apply s.records } ∧
      replaceFile s.path (apply s.records).toDocument d = .ok () w'.2 := by
  rw [change, modify_bind] at h
  cases hp : persist ({ s with records := apply s.records }, d) with
  | ok v t =>
    rw [bind_of_ok (attempt_of_ok hp)] at h
    cases h
    exact persist_eq_ok hp
  | error e t =>
    rw [bind_of_ok (attempt_of_error hp)] at h
    cases h

/-- A change fails if it cannot be written, and is taken back then. -/
theorem change_eq_error {apply takeBack : Records → Records}
    (h : change apply takeBack (s, d) = .error e w') :
    w'.1 = { s with records := takeBack (apply s.records) } ∧ WriteFails s.path d e w'.2 := by
  rw [change, modify_bind] at h
  cases hp : persist ({ s with records := apply s.records }, d) with
  | ok v t =>
    rw [bind_of_ok (attempt_of_ok hp)] at h
    cases h
  | error e' t =>
    obtain ⟨s', d'⟩ := t
    obtain ⟨rfl, hw⟩ : s' = _ ∧ _ := persist_eq_error hp
    rw [bind_of_ok (attempt_of_error hp)] at h
    cases h
    exact ⟨rfl, hw⟩

theorem change_of_works (apply takeBack : Records → Records) (h : FileWorks s.path d) :
    ∃ d', change apply takeBack (s, d) = .ok () ({ s with records := apply s.records }, d') ∧
      Holds s.path (apply s.records) d' := by
  obtain ⟨d', hp, hh⟩ := persist_of_works (s := { s with records := apply s.records }) h
  refine ⟨d', ?_, hh⟩
  rw [change, modify_bind]
  exact bind_of_ok (attempt_of_ok hp)

/-! ## Inserting -/

theorem insert_eq_change (ha : s.records.Accepts secret) : insert secret (s, d) =
    change (·.withSecret secret) (·.erase secret.name) (s, d) := by
  have hn : s.contains secret.name = false := ha.1
  rw [insert, get_bind]
  simp only [hn, Bool.false_eq_true, if_false]
  cases hg : secret.groupName? with
  | none => rfl
  | some group =>
    have hgc : s.contains group = true := ha.2 group hg
    simp only [hgc, Bool.not_true, Bool.false_eq_true, if_false]
    rfl

theorem insert_of_accepts (ha : s.records.Accepts secret) (hw : FileWorks s.path d) :
    ∃ d', insert secret (s, d) = .ok () ({ s with records := s.records.withSecret secret }, d') ∧
      Holds s.path (s.records.withSecret secret) d' := by
  rw [insert_eq_change ha]
  exact change_of_works (·.withSecret secret) (·.erase secret.name) hw

/-- An insertion that is not accepted is refused by the store itself. -/
theorem insert_refuses (ha : ¬ s.records.Accepts secret) :
    ∃ e, insert secret (s, d) = .error e (s, d) ∧ ∀ cause, e ≠ .io cause := by
  rw [insert, get_bind]
  cases hn : s.contains secret.name with
  | true =>
    simp only [hn, if_true]
    exact ⟨_, rfl, nofun⟩
  | false =>
    obtain ⟨group, hg, hgc⟩ : ∃ group, secret.groupName? = some group ∧ s.contains group = false := by
      simpa [Records.Accepts, contains, show s.records.contains secret.name = false from hn] using ha
    simp only [hn, Bool.false_eq_true, if_false, hg, hgc, Bool.not_false, if_true]
    exact ⟨_, rfl, nofun⟩

theorem insert_of_not_accepts (ha : ¬ s.records.Accepts secret) :
    ∃ e, insert secret (s, d) = .error e (s, d) :=
  (insert_refuses ha).imp fun _ h => h.1

/-- An insertion that succeeds was accepted; the secret is then in memory and written. -/
theorem insert_eq_ok (h : insert secret (s, d) = .ok u w') : s.records.Accepts secret ∧
    w'.1 = { s with records := s.records.withSecret secret } ∧
      replaceFile s.path (s.records.withSecret secret).toDocument d = .ok () w'.2 := by
  by_cases ha : s.records.Accepts secret
  · rw [insert_eq_change ha] at h
    exact ⟨ha, change_eq_ok h⟩
  · obtain ⟨e, he⟩ := insert_of_not_accepts (d := d) ha
    rw [he] at h
    cases h

/-- An insertion that fails leaves the store as it was. Either it was refused, or it could not be
written. -/
theorem insert_eq_error (h : insert secret (s, d) = .error e w') : w'.1 = s ∧
    (w'.2 = d ∧ (∀ cause, e ≠ .io cause) ∨ WriteFails s.path d e w'.2) := by
  by_cases ha : s.records.Accepts secret
  · rw [insert_eq_change ha] at h
    obtain ⟨hs, hw⟩ := change_eq_error h
    rw [Records.withSecret, NameMap.erase_insert ha.1] at hs
    exact ⟨hs, .inr hw⟩
  · obtain ⟨e', he, hio⟩ := insert_refuses (d := d) ha
    rw [he] at h
    cases h
    exact ⟨rfl, .inl ⟨rfl, hio⟩⟩

/-! ## Removing -/

namespace Records

/-- The records that go when a name is removed. None do if it is not stored. -/
def removedWith (m : Records) (name : String) : Records :=
  if m.contains name then m.dependants name else NameMap.empty

/-- The records that stay when a name is removed. -/
def leftWithout (m : Records) (name : String) : Records :=
  if m.contains name then m.without name else m

theorem mem_names_removedWith {m : Records} {other : String} :
    other ∈ (m.removedWith name).names ↔ m.contains name = true ∧ m.contains other = true ∧
      ReflTransGen m.Under other name := by
  rw [NameMap.mem_names, removedWith]
  split
  · rename_i hc
    simp only [hc, true_and, NameMap.contains_eq_true, find?_dependants, exists_and_right]
  · rename_i hc
    exact iff_of_false (by simp [NameMap.contains]) fun h => hc h.1

/-- What stays is what is not named among what goes. -/
theorem leftWithout_eq (m : Records) (name : String) :
    m.leftWithout name = m.filter fun other _ => other ∉ (m.removedWith name).names := by
  refine NameMap.ext fun other => Option.ext fun r => ?_
  rw [NameMap.find?_filter_eq_some, decide_eq_true_eq, mem_names_removedWith, leftWithout]
  split
  · rename_i hc
    rw [find?_without]
    refine and_congr_right fun hf => ?_
    simp [hc, NameMap.contains_eq_true.2 ⟨r, hf⟩]
  · rename_i hc
    simp [hc]

end Records

theorem remove_of_not_contains (h : s.records.contains name = false) :
    remove name (s, d) = .ok NameMap.empty (s, d) := by
  have hc : s.contains name = false := h
  rw [remove, get_bind]
  simp only [hc, Bool.not_false, if_true]
  rfl

theorem remove_of_contains (h : s.records.contains name = true) : remove name (s, d) =
    (do
      change (·.filter fun other _ => other ∉ s.records.cascade name)
        (·.insertAll (s.records.dependants name).toList)
      return s.records.dependants name : StoreAction Records) (s, d) := by
  have hc : s.contains name = true := h
  rw [remove, get_bind]
  simp only [hc, Bool.not_true, Bool.false_eq_true, if_false, NameMap.ofList_extract,
    NameMap.extract_snd]
  rfl

theorem remove_of_holds (h : Holds s.path s.records d) (name : String) : ∃ d', remove name (s, d) =
      .ok (s.records.removedWith name) ({ s with records := s.records.leftWithout name }, d') ∧
    Holds s.path (s.records.leftWithout name) d' := by
  unfold Records.removedWith Records.leftWithout
  cases hc : s.records.contains name with
  | false => exact ⟨d, remove_of_not_contains hc, h⟩
  | true =>
    obtain ⟨d', hch, hh⟩ := change_of_works (s := s)
      (·.filter fun other _ => other ∉ s.records.cascade name)
      (·.insertAll (s.records.dependants name).toList) h.2
    refine ⟨d', ?_, hh⟩
    rw [remove_of_contains hc, bind_of_ok hch]
    rfl

/-- A removal that succeeds takes out what is grouped under the name, and writes the rest. -/
theorem remove_eq_ok_of_contains (hc : s.records.contains name = true)
    (h : remove name (s, d) = .ok removed w') : removed = s.records.dependants name ∧
      w'.1 = { s with records := s.records.without name } ∧
      replaceFile s.path (s.records.without name).toDocument d = .ok () w'.2 := by
  rw [remove_of_contains hc] at h
  obtain ⟨v, t, hch, h⟩ := bind_eq_ok.1 h
  cases h
  exact ⟨rfl, change_eq_ok hch⟩

theorem remove_eq_ok (h : remove name (s, d) = .ok removed w') :
    removed = s.records.removedWith name := by
  unfold Records.removedWith
  cases hc : s.records.contains name with
  | false =>
    rw [remove_of_not_contains hc] at h
    cases h
    rfl
  | true => exact (remove_eq_ok_of_contains hc h).1

/-- A removal that fails could not be written. It leaves the store as it was. -/
theorem remove_eq_error (h : remove name (s, d) = .error e w') :
    w'.1 = s ∧ WriteFails s.path d e w'.2 := by
  cases hc : s.records.contains name with
  | false =>
    rw [remove_of_not_contains hc] at h
    cases h
  | true =>
    rw [remove_of_contains hc] at h
    obtain ⟨hs, hw⟩ := change_eq_error (bind_pure_eq_error.1 h)
    exact ⟨hs.trans (congrArg _ (s.records.insertAll_dependants name)), hw⟩

/-! ## Both -/

/-- The calls that change a store. -/
inductive Change
  | insert (secret : Secret)
  | remove (name : String)

namespace Change

def run : Change → StoreAction Unit
  | insert secret => Store.insert secret
  | remove name => do let _ ← Store.remove name

/-- A change that succeeds is written, unless there was nothing to remove. -/
theorem run_eq_ok {c : Change} {s' : Store} (h : c.run (s, d) = .ok u (s', d')) :
    (∃ name, c = .remove name ∧ s.contains name = false ∧ s' = s ∧ d' = d) ∨
      s'.path = s.path ∧ replaceFile s.path s'.records.toDocument d = .ok () d' := by
  cases c with
  | insert secret =>
    obtain ⟨-, hs, hw⟩ := insert_eq_ok h
    obtain rfl : s' = _ := hs
    exact .inr ⟨rfl, hw⟩
  | remove name =>
    obtain ⟨removed, w, hr, h⟩ := bind_eq_ok.1 h
    cases h
    cases hc : s.records.contains name with
    | false =>
      rw [remove_of_not_contains hc] at hr
      cases hr
      exact .inl ⟨name, rfl, hc, rfl, rfl⟩
    | true =>
      obtain ⟨-, hs, hw⟩ := remove_eq_ok_of_contains hc hr
      obtain rfl : s' = _ := hs
      exact .inr ⟨rfl, hw⟩

/-- A change that fails leaves the store as it was. -/
theorem run_eq_error {c : Change} {s' : Store} (h : c.run (s, d) = .error e (s', d')) :
    s' = s ∧ (d' = d ∧ (∀ cause, e ≠ .io cause) ∨ WriteFails s.path d e d') := by
  cases c with
  | insert secret => exact insert_eq_error h
  | remove name =>
    obtain ⟨hs, hw⟩ := remove_eq_error (bind_pure_eq_error.1 h)
    exact ⟨hs, .inr hw⟩

end Change

end VaultAgent.Store
