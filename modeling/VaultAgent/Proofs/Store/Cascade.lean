import VaultAgent.Proofs.Store.Ready
import VaultAgent.Proofs.Store.Resolve

/-!
# What a removal takes along

A record is `Beneath` its parent, which a root does not have. A removal should take out the name and
all that leads to it by such steps (`ExactCascade`). It takes out what it finds in a search that compares
groups as they are written (`mem_cascade`), so a root, whose group is written as the empty text, goes
with a record that is stored under the empty name: that record is the only way from a root to anything
(`under_iff`), and the only reason why a removal takes out too much (`exactCascade_iff_of_remove`).
-/

namespace VaultAgent.Store

open VaultAgent.Action
open Relation (ReflTransGen)

namespace Records

variable {m : Records} {name other parent : String} {r : Record}

/-- The record of `name` has the parent `parent`. -/
def Beneath (m : Records) (name parent : String) : Prop :=
  ∃ r, m.find? name = some r ∧ r.groupName? = some parent

theorem beneath_iff : m.Beneath name parent ↔ m.Under name parent ∧ parent ≠ "" := by
  constructor
  · rintro ⟨r, hf, hg⟩
    obtain ⟨rfl, hne⟩ := Record.groupName?_eq_some.1 hg
    exact ⟨⟨r, hf, rfl⟩, hne⟩
  · rintro ⟨⟨r, hf, rfl⟩, hne⟩
    exact ⟨r, hf, Record.groupName?_eq_some.2 ⟨rfl, hne⟩⟩

theorem under_of_beneath (h : ReflTransGen m.Beneath name other) : ReflTransGen m.Under name other :=
  h.lift id fun _ _ hb => (beneath_iff.1 hb).1

/-- A record without a group. -/
def IsRoot (m : Records) (name : String) : Prop :=
  ∃ r, m.find? name = some r ∧ r.group = ""

theorem IsRoot.eq_of_beneath (hr : m.IsRoot name) (h : ReflTransGen m.Beneath name other) :
    name = other := by
  rcases ReflTransGen.cases_head h with heq | ⟨parent, hb, -⟩
  · exact heq
  · obtain ⟨r, hf, hg⟩ := hr
    obtain ⟨⟨r', hf', rfl⟩, hne⟩ := beneath_iff.1 hb
    obtain rfl := Option.some.inj (hf.symm.trans hf')
    exact absurd hg hne

/-- Groups as they are written lead where parents lead, and from any root on to the empty name. -/
theorem under_iff : ReflTransGen m.Under other name ↔ ReflTransGen m.Beneath other name ∨
    ReflTransGen m.Beneath "" name ∧ ∃ root, m.IsRoot root ∧ ReflTransGen m.Beneath other root := by
  constructor
  · intro h
    induction h using ReflTransGen.head_induction_on with
    | refl => exact .inl .refl
    | @head other parent hu hs ih =>
      by_cases hp : parent = ""
      · -- The step leaves a root; what follows starts from the empty name.
        subst hp
        have hempty : ReflTransGen m.Beneath "" name := ih.elim id (·.1)
        exact .inr ⟨hempty, other, hu, .refl⟩
      · have hb : m.Beneath other parent := beneath_iff.2 ⟨hu, hp⟩
        rcases ih with h | ⟨hempty, root, hroot, h⟩
        · exact .inl (.head hb h)
        · exact .inr ⟨hempty, root, hroot, .head hb h⟩
  · rintro (h | ⟨hempty, root, hroot, h⟩)
    · exact under_of_beneath h
    · have hstep : m.Under root "" := hroot
      exact ((under_of_beneath h).tail hstep).trans (under_of_beneath hempty)

/-- From `m`, the records that lead to `name` by their parents are taken out, and no others. -/
structure ExactCascade (m : Records) (name : String) (removed left : Records) : Prop where
  removed : ∀ other r, removed.find? other = some r ↔
    m.find? other = some r ∧ ReflTransGen m.Beneath other name
  left : ∀ other r, left.find? other = some r ↔
    m.find? other = some r ∧ ¬ ReflTransGen m.Beneath other name

theorem exactCascade_iff : m.ExactCascade name (m.dependants name) (m.without name) ↔
    (ReflTransGen m.Beneath "" name → ∀ root, m.IsRoot root → root = name) := by
  constructor
  · intro h hempty root hroot
    obtain ⟨r, hf, hg⟩ := hroot
    have hu : ReflTransGen m.Under root name := under_iff.2 (.inr ⟨hempty, root, ⟨r, hf, hg⟩, .refl⟩)
    obtain ⟨-, hb⟩ := (h.removed root r).1 (find?_dependants.2 ⟨hf, hu⟩)
    exact IsRoot.eq_of_beneath ⟨r, hf, hg⟩ hb
  · intro h
    have hiff (other : String) :
        ReflTransGen m.Under other name ↔ ReflTransGen m.Beneath other name := by
      refine ⟨fun hu => ?_, under_of_beneath⟩
      rcases under_iff.1 hu with hb | ⟨hempty, root, hroot, hb⟩
      · exact hb
      · exact h hempty root hroot ▸ hb
    exact ⟨fun other r => by rw [find?_dependants, hiff], fun other r => by rw [find?_without, hiff]⟩

end Records

/-! ## The removal -/

variable {s : Store} {d : Disk} {w' : Store × Disk} {removed : Records} {name : String}

/-- The file at a path holds these records, as they are written. -/
def Written (path : Path) (m : Records) (d : Disk) : Prop :=
  ∃ place mode, d.find path = .ok (place, .file mode m.toDocument)

/-- A name that is not stored is removed without a trace. A removal of one that is writes what is left;
it takes out exactly what leads to the name if, and only if, the empty name does not lead there, or
there is no root besides the name. -/
theorem exactCascade_iff_of_remove (s : Store) (d : Disk) (name : String) :
    (s.contains name = false → remove name (s, d) = .ok .empty (s, d)) ∧
    ∀ removed s' d', s.contains name = true → remove name (s, d) = .ok removed (s', d') →
      s'.path = s.path ∧ Written s.path s'.records d' ∧
        (s.records.ExactCascade name removed s'.records ↔
          (ReflTransGen s.records.Beneath "" name → ∀ root, s.records.IsRoot root → root = name)) := by
  refine ⟨fun hc => remove_of_not_contains hc, fun removed s' d' hc hr => ?_⟩
  obtain ⟨rfl, hs, hw⟩ := remove_eq_ok_of_contains hc hr
  obtain rfl : s' = _ := hs
  exact ⟨rfl, find_of_replaceFile hw, Records.exactCascade_iff⟩

/-- `a` and `b` are each other's group, `c` hangs from `b`, and `d` is a root. -/
def tangled : Records :=
  .ofList [("a", .plain "b"), ("b", .plain "a"), ("c", .plain "b"), ("d", .plain "")]

theorem exactCascade_iff_of_cycle :
    (Store.contains ⟨plainPath, tangled⟩ "e" = false ∧
      remove "e" (⟨plainPath, tangled⟩, diskWith tangled) =
        .ok .empty (⟨plainPath, tangled⟩, diskWith tangled)) ∧
    ∃ removed s' d', Store.contains ⟨plainPath, tangled⟩ "a" = true ∧
      remove "a" (⟨plainPath, tangled⟩, diskWith tangled) = .ok removed (s', d') ∧
      s'.path = plainPath ∧ Written plainPath s'.records d' ∧
      (tangled.ExactCascade "a" removed s'.records ↔
        (ReflTransGen tangled.Beneath "" "a" → ∀ root, tangled.IsRoot root → root = "a")) := by
  have hno : Store.contains ⟨plainPath, tangled⟩ "e" = false := by decide
  have hc : Store.contains ⟨plainPath, tangled⟩ "a" = true := by decide
  obtain ⟨d', hr, -⟩ := remove_of_holds (s := ⟨plainPath, tangled⟩) (holds_diskWith tangled) "a"
  refine ⟨⟨hno, ?_⟩, _, _, d', hc, hr, ?_⟩
  · exact (exactCascade_iff_of_remove ⟨plainPath, tangled⟩ (diskWith tangled) "e").1 hno
  · exact (exactCascade_iff_of_remove ⟨plainPath, tangled⟩ (diskWith tangled) "a").2 _ _ d' hc hr

/-- Two roots, one of which has no name. -/
def nameless : Records :=
  .ofList [("", .plain ""), ("a", .plain "")]

/-- A removal of the empty name takes out the root `a`, which has no parent. -/
theorem empty_name_takes_roots : ∃ removed s' d', Store.contains ⟨plainPath, nameless⟩ "" = true ∧
    remove "" (⟨plainPath, nameless⟩, diskWith nameless) = .ok removed (s', d') ∧
    ¬ nameless.ExactCascade "" removed s'.records := by
  have hc : Store.contains ⟨plainPath, nameless⟩ "" = true := by decide
  obtain ⟨d', hr, -⟩ := remove_of_holds (s := ⟨plainPath, nameless⟩) (holds_diskWith nameless) ""
  refine ⟨_, _, d', hc, hr, fun h => ?_⟩
  have hf : (nameless.removedWith "").find? "a" = some (.plain "") := by decide +kernel
  obtain ⟨hfa, hb⟩ := (h.removed "a" (.plain "")).1 hf
  exact absurd (Records.IsRoot.eq_of_beneath ⟨_, hfa, rfl⟩ hb) (by decide)

end VaultAgent.Store
