import VaultAgent.NameMap
import Mathlib.Tactic.Common

/-!
# More on maps by name

What the derived operations do to the view: `contains`, `insertAll`, `extract` and `ofList`. A map is what its
list of entries says, so it is read back from that list (`ofList_toList`).
-/

namespace VaultAgent.NameMap

variable {α : Type} {m : NameMap α} {name : String}

theorem contains_eq_true : m.contains name = true ↔ ∃ v, m.find? name = some v :=
  Option.isSome_iff_exists

theorem contains_eq_false : m.contains name = false ↔ m.find? name = none := by
  rw [contains, Option.isSome_eq_false_iff, Option.isNone_iff_eq_none]

theorem find?_filter_eq_some {p : String → α → Bool} {v : α} :
    (m.filter p).find? name = some v ↔ m.find? name = some v ∧ p name v = true := by
  rw [find?_filter, Option.filter_eq_some_iff]

theorem find?_insertAll {es : List (String × α)} (hs : es.Pairwise (·.1 < ·.1)) :
    (m.insertAll es).find? name = (lookUp name es).or (m.find? name) := by
  induction es generalizing m with
  | nil => rfl
  | cons e es ih =>
    obtain ⟨hlt, hs⟩ := List.pairwise_cons.1 hs
    have hi : (m.insertAll (e :: es)).find? name = ((m.insert e.1 e.2).insertAll es).find? name := rfl
    rw [hi, ih hs, find?_insert]
    by_cases h : e.1 = name
    · have hn : lookUp name es = none := lookUp_eq_none.2 fun f hf hfn =>
        String.lt_irrefl _ (hfn ▸ h ▸ hlt f hf)
      simp [lookUp, h, hn]
    · simp [lookUp, h]

/-- What is put in can be taken out again, if there was nothing under its name. -/
theorem erase_insert {v : α} (h : m.contains name = false) : (m.insert name v).erase name = m := by
  refine ext fun other => ?_
  rw [find?_erase, find?_insert]
  split
  · rename_i hn
    rw [← hn, contains_eq_false.1 h]
  · rfl

/-- What a test takes out can be put in again. -/
theorem insertAll_filter (m : NameMap α) (p : String → α → Bool) :
    (m.filter fun name v => !p name v).insertAll (m.filter p).toList = m := by
  refine ext fun name => ?_
  have hfind : ((m.filter fun name v => !p name v).insertAll (m.filter p).toList).find? name =
      ((m.filter p).find? name).or ((m.filter fun name v => !p name v).find? name) :=
    find?_insertAll (m.filter p).sorted
  rw [hfind, find?_filter, find?_filter]
  cases m.find? name with
  | none => rfl
  | some v => cases hv : p name v <;> simp [hv]

@[simp] theorem ofList_toList (m : NameMap α) : ofList m.toList = m :=
  ext fun name => by
    have h : (empty.insertAll m.toList).find? name = (lookUp name m.toList).or none :=
      find?_insertAll m.sorted
    rw [ofList, h, Option.or_none]; rfl

/-! ## Taking entries out -/

theorem extract_of_none {names : List String} (h : m.find? name = none) :
    m.extract (name :: names) = m.extract names := by
  simp only [extract, h]

theorem extract_of_some {names : List String} {v : α} (h : m.find? name = some v) :
    m.extract (name :: names) =
      ((name, v) :: ((m.erase name).extract names).1, ((m.erase name).extract names).2) := by
  simp only [extract, h]

theorem find?_insertAll_extract (m k : NameMap α) (names : List String) (other : String) :
    (k.insertAll (m.extract names).1).find? other =
      if other ∈ names then (m.find? other).or (k.find? other) else k.find? other := by
  induction names generalizing m k with
  | nil => rfl
  | cons name names ih =>
    cases hf : m.find? name with
    | none =>
      rw [extract_of_none hf, ih]
      by_cases h : other = name
      · simp [h, hf]
      · simp [h]
    | some v =>
      rw [extract_of_some hf]
      have hi : k.insertAll ((name, v) :: ((m.erase name).extract names).1) =
        (k.insert name v).insertAll ((m.erase name).extract names).1 := rfl
      rw [hi, ih, find?_erase, find?_insert]
      by_cases h : name = other
      · subst h; simp [hf]
      · simp [h, Ne.symm h]

theorem ofList_extract (m : NameMap α) (names : List String) :
    ofList (m.extract names).1 = m.filter fun name _ => name ∈ names := by
  refine ext fun name => ?_
  rw [ofList, find?_insertAll_extract, find?_filter]
  cases m.find? name <;> by_cases h : name ∈ names <;> simp [Option.filter, h]

theorem extract_snd (m : NameMap α) (names : List String) :
    (m.extract names).2 = m.filter fun name _ => name ∉ names := by
  refine ext fun other => ?_
  induction names generalizing m with
  | nil => rw [find?_filter]; cases h : m.find? other <;> simp [extract, Option.filter, h]
  | cons name names ih =>
    cases hf : m.find? name with
    | none =>
      rw [extract_of_none hf, ih, find?_filter, find?_filter]
      by_cases h : other = name
      · simp [h, hf]
      · simp [h]
    | some v =>
      rw [extract_of_some hf, ih, find?_filter, find?_filter, find?_erase]
      by_cases h : name = other
      · subst h; simp [hf]
      · simp [h, Ne.symm h]

/-! ## The names -/

theorem sorted_names (m : NameMap α) : m.names.Pairwise (· < ·) :=
  List.pairwise_map.2 m.sorted

/-- The names are the only list that has them in ascending order. -/
theorem eq_names {names : List String} (hs : names.Pairwise (· < ·))
    (hm : ∀ name, name ∈ names ↔ m.contains name = true) : names = m.names := by
  have hnodup {names : List String} (h : names.Pairwise (· < ·)) : names.Nodup := by
    refine h.imp fun {a b} hlt heq => ?_
    exact String.lt_irrefl b (heq ▸ hlt)
  have hperm : names.Perm m.names := by
    rw [List.perm_ext_iff_of_nodup (hnodup hs) (hnodup m.sorted_names)]
    exact fun name => (hm name).trans mem_names.symm
  refine hperm.eq_of_pairwise (fun a b _ _ hab hba => ?_) hs m.sorted_names
  exact absurd (String.lt_trans hab hba) (String.lt_irrefl a)

end VaultAgent.NameMap
