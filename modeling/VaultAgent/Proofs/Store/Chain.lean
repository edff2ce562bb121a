import VaultAgent.Proofs.NameMap
import VaultAgent.Store.Resolve
import Mathlib.Data.List.Perm.Subperm
import Mathlib.Logic.Relation

/-!
# What is grouped under a name

`m.Under name parent`: the record of `name` names `parent` as its group, whatever that is. The search
for the records below a name finds a name if, and only if, such links lead from it to the one the
search starts from (`mem_cascade`). Before each turn what was found leads there, and of what was found
and does not wait all that is directly below was found too (`Reaches`); no name waits twice, so the
turns last until none waits (`Reaches.spread`).
-/

namespace VaultAgent.Store.Records

open Relation (ReflTransGen)

variable {m m' : Records} {name other parent target : String} {r : Record} {s : Search}

/-- The record of `name` names `parent` as its group. -/
def Under (m : Records) (name parent : String) : Prop :=
  ∃ r, m.find? name = some r ∧ r.group = parent

theorem contains_of_under (h : ReflTransGen m.Under name target) (hne : name ≠ target) :
    m.contains name = true := by
  rcases ReflTransGen.cases_head h with heq | ⟨parent, ⟨r, hf, -⟩, -⟩
  · exact absurd heq hne
  · exact NameMap.contains_eq_true.2 ⟨r, hf⟩

/-! ## The search for the records below a name -/

theorem Search.mem_found_visit {entry : String × Record} : name ∈ (s.visit parent entry).found ↔
    name ∈ s.found ∨ name = entry.1 ∧ entry.2.group = parent := by
  unfold Search.visit
  split
  · rename_i h
    simp [h.1]
  · rename_i h
    refine ⟨.inl, ?_⟩
    rintro (hn | ⟨rfl, hg⟩)
    · exact hn
    · by_contra hn
      exact h ⟨hg, hn⟩

theorem Search.mem_found_visits (parent : String) (s : Search) (entries : List (String × Record)) :
    name ∈ (entries.foldl (Search.visit parent) s).found ↔
      name ∈ s.found ∨ ∃ r, (name, r) ∈ entries ∧ r.group = parent := by
  induction entries generalizing s with
  | nil => simp
  | cons entry entries ih =>
    rw [List.foldl_cons, ih, mem_found_visit]
    constructor
    · rintro ((hn | ⟨rfl, hg⟩) | ⟨r, hr, hg⟩)
      · exact .inl hn
      · exact .inr ⟨entry.2, List.mem_cons_self, hg⟩
      · exact .inr ⟨r, List.mem_cons_of_mem _ hr, hg⟩
    · rintro (hn | ⟨r, hr, hg⟩)
      · exact .inl (.inl hn)
      · rcases List.mem_cons.1 hr with rfl | hr
        · exact .inl (.inr ⟨rfl, hg⟩)
        · exact .inr ⟨r, hr, hg⟩

/-- What is found on a turn was not found before, and waits then. -/
theorem Search.exists_fresh (parent : String) (s : Search) (entries : List (String × Record))
    (hd : s.found.Nodup) : ∃ fresh,
    entries.foldl (Search.visit parent) s = ⟨s.found ++ fresh, s.waiting ++ fresh⟩ ∧
      (s.found ++ fresh).Nodup := by
  induction entries generalizing s with
  | nil => exact ⟨[], by simp, by simpa using hd⟩
  | cons entry entries ih =>
    rw [List.foldl_cons]
    by_cases h : entry.2.group = parent ∧ entry.1 ∉ s.found
    · rw [Search.visit, if_pos h]
      have hd' : (s.found ++ [entry.1]).Nodup :=
        List.nodup_append.2 ⟨hd, List.pairwise_singleton .., fun n hn k hk heq =>
          h.2 (List.mem_singleton.1 hk ▸ heq ▸ hn)⟩
      obtain ⟨fresh, heq, hf⟩ := ih ⟨s.found ++ [entry.1], s.waiting ++ [entry.1]⟩ hd'
      exact ⟨entry.1 :: fresh, by simpa using heq, by simpa using hf⟩
    · rw [Search.visit, if_neg h]
      exact ih s hd

/-- What holds of the search for the records below `target` before each turn. -/
structure Reaches (m : Records) (target : String) (s : Search) : Prop where
  start : target ∈ s.found
  nodup : s.found.Nodup
  waits : ∀ name ∈ s.waiting, name ∈ s.found
  leads : ∀ name ∈ s.found, ReflTransGen m.Under name target
  asked : ∀ name parent, m.Under name parent → parent ∈ s.found → parent ∉ s.waiting →
    name ∈ s.found

namespace Reaches

theorem first (m : Records) (target : String) : m.Reaches target ⟨[target], [target]⟩ where
  start := List.mem_singleton_self _
  nodup := List.pairwise_singleton ..
  waits := fun _ h => h
  leads := fun _ h => List.mem_singleton.1 h ▸ .refl
  asked := fun _ _ _ h hn => absurd h hn

theorem turn {waiting : List String} (h : m.Reaches target s) (hw : s.waiting = parent :: waiting) :
    m.Reaches target (m.toList.foldl (Search.visit parent) { s with waiting }) := by
  obtain ⟨fresh, heq, hd⟩ := Search.exists_fresh parent { s with waiting } m.toList h.nodup
  have hmem (name : String) : name ∈ s.found ++ fresh ↔ name ∈ s.found ∨ m.Under name parent := by
    simpa only [heq, NameMap.mem_toList, Under] using
      Search.mem_found_visits parent { s with waiting } m.toList
  have hparent : parent ∈ s.found := h.waits parent (hw ▸ List.mem_cons_self)
  rw [heq]
  refine ⟨List.mem_append_left _ h.start, hd, fun name hn => ?_, fun name hn => ?_,
    fun name p hu hp hnot => ?_⟩
  · rcases List.mem_append.1 hn with hn | hn
    · exact List.mem_append_left _ (h.waits name (hw ▸ List.mem_cons_of_mem _ hn))
    · exact List.mem_append_right _ hn
  · rcases (hmem name).1 hn with hn | hu
    · exact h.leads name hn
    · exact .head hu (h.leads parent hparent)
  · -- A name that was asked before, or the one whose turn it is: what is new still waits.
    by_cases hpp : p = parent
    · exact (hmem name).2 (.inr (hpp ▸ hu))
    rcases List.mem_append.1 hp with hp | hp
    · have hnot' : p ∉ s.waiting := by
        rw [hw]
        exact fun hc => (List.mem_cons.1 hc).elim hpp fun hc => hnot (List.mem_append_left _ hc)
      exact List.mem_append_left _ (h.asked name p hu hp hnot')
    · exact absurd (List.mem_append_right _ hp) hnot

theorem length_found_le (h : m.Reaches target s) : s.found.length ≤ m.size + 1 := by
  have hs : s.found ⊆ target :: m.names := fun name hn => by
    by_cases hne : name = target
    · exact hne ▸ List.mem_cons_self
    · exact List.mem_cons_of_mem _ (NameMap.mem_names.2 (contains_of_under (h.leads name hn) hne))
  have := (h.nodup.subperm hs).length_le
  simpa [NameMap.names, NameMap.size] using this

/-- The names that wait and those that are yet to be found are asked on the turns that are left. -/
theorem spread {turns : Nat} (h : m.Reaches target s)
    (ht : s.waiting.length + (m.size + 1) ≤ turns + s.found.length) :
    m.Reaches target (m.spread turns s) ∧ (m.spread turns s).waiting = [] := by
  induction turns generalizing s with
  | zero =>
    have hle := h.length_found_le
    exact ⟨h, List.eq_nil_of_length_eq_zero (by simp only [Records.spread]; omega)⟩
  | succ turns ih =>
    rw [Records.spread]
    cases hw : s.waiting with
    | nil => exact ⟨h, hw⟩
    | cons parent waiting =>
      obtain ⟨fresh, heq, -⟩ := Search.exists_fresh parent { s with waiting } m.toList h.nodup
      refine ih (h.turn hw) ?_
      rw [hw] at ht
      simp only [heq, List.length_append, List.length_cons] at ht ⊢
      omega

end Reaches

/-- The search ends, and finds the name and all that is grouped under it. -/
theorem mem_cascade : name ∈ m.cascade target ↔ ReflTransGen m.Under name target := by
  obtain ⟨h, hw⟩ : m.Reaches target (m.spread (m.size + 1) ⟨[target], [target]⟩) ∧
      (m.spread (m.size + 1) ⟨[target], [target]⟩).waiting = [] :=
    (Reaches.first m target).spread (by simp; omega)
  refine ⟨h.leads name, fun hu => ?_⟩
  induction hu using ReflTransGen.head_induction_on with
  | refl => exact h.start
  | head hu _ ih => exact h.asked _ _ hu ih (by simp [hw])

/-! ## What goes and what is left -/

/-- The records that are found below a name, that one included. -/
def dependants (m : Records) (target : String) : Records :=
  m.filter fun name _ => name ∈ m.cascade target

/-- What is left of the records if all that is grouped under a name is taken out. -/
def without (m : Records) (target : String) : Records :=
  m.filter fun name _ => name ∉ m.cascade target

theorem find?_without : (m.without target).find? name = some r ↔
    m.find? name = some r ∧ ¬ ReflTransGen m.Under name target := by
  rw [without, NameMap.find?_filter_eq_some, decide_eq_true_eq, mem_cascade]

theorem find?_dependants : (m.dependants target).find? name = some r ↔
    m.find? name = some r ∧ ReflTransGen m.Under name target := by
  rw [dependants, NameMap.find?_filter_eq_some, decide_eq_true_eq, mem_cascade]

/-- What goes and what is left are all there was. -/
theorem insertAll_dependants (m : Records) (target : String) :
    NameMap.insertAll (m.without target) (m.dependants target).toList = m := by
  simpa only [without, dependants, decide_not] using
    NameMap.insertAll_filter m fun name _ => decide (name ∈ m.cascade target)

/-! ## A name that is not stored -/

/-- The record of a name has no say in what is grouped under that name. -/
theorem under_insert_iff : ReflTransGen (Under (m.insert target r)) name target ↔
    ReflTransGen m.Under name target := by
  have hstep {other parent : String} (hne : other ≠ target) :
      Under (m.insert target r) other parent ↔ m.Under other parent := by
    rw [Under, Under, NameMap.find?_insert, if_neg hne.symm]
  constructor <;> intro h
  all_goals
    induction h using ReflTransGen.head_induction_on with
    | refl => exact .refl
    | @head name parent hu _ ih =>
      by_cases hne : name = target
      · exact hne ▸ .refl
      · exact .head (by simpa only [hstep hne] using hu) ih

/-- A new record is taken out with what was grouped under its name before. -/
theorem without_insert (hn : m.contains target = false) (r : Record) :
    without (m.insert target r) target = m.without target := by
  refine NameMap.ext fun name => Option.ext fun r' => ?_
  rw [find?_without, find?_without, under_insert_iff, NameMap.find?_insert]
  split
  · rename_i h
    rw [← h, NameMap.contains_eq_false.1 hn]
    simp [ReflTransGen.refl]
  · rfl

/-- Nothing goes with a name that is not stored and that no record is grouped under. -/
theorem without_eq_self_iff (hn : m.contains target = false) :
    m.without target = m ↔ ∀ name, ¬ m.Under name target := by
  constructor
  · rintro h name ⟨r, hf, hg⟩
    rw [← h] at hf
    obtain ⟨hf, hu⟩ := find?_without.1 hf
    exact hu (.single ⟨r, hf, hg⟩)
  · intro h
    refine NameMap.ext fun name => Option.ext fun r => ?_
    rw [find?_without, and_iff_left_iff_imp]
    rintro hf hu
    rcases ReflTransGen.cases_tail hu with rfl | ⟨child, -, hc⟩
    · simp [NameMap.contains, hf] at hn
    · exact h child hc

end VaultAgent.Store.Records
