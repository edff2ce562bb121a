import VaultAgent.Proofs.Action
import VaultAgent.Proofs.Store.Chain

/-!
# From a record to its root

`Lineage m name es`: the groups lead from `name` to a root, and `es` are the records on the way, both
ends included. There is no more than one such way, and it comes by no name twice (`Lineage.nodup`): the
search for the chain of a name finds it if it is not too long (`chain_eq_ok_iff`), and stops after as
many records as a chain may have if it is (`chain_of_long`).
-/

namespace VaultAgent.Store

open VaultAgent.Action
open Relation (ReflTransGen)

theorem Record.groupName?_eq_none {r : Record} : r.groupName? = none ↔ r.group = "" := by
  simp [Record.groupName?]

theorem Record.groupName?_eq_some {r : Record} {parent : String} :
    r.groupName? = some parent ↔ r.group = parent ∧ parent ≠ "" := by
  unfold Record.groupName?
  split
  · rename_i h; simp only [reduceCtorEq, false_iff, not_and, not_not]; exact fun hp => hp ▸ h
  · rename_i h; rw [Option.some.injEq]; exact ⟨fun hp => ⟨hp, hp ▸ h⟩, (·.1)⟩

namespace Records

variable {m m' : Records} {start name : String} {levels : Nat} {seen : List String}
  {es es' : List (String × Record)} {e : String × Record} {r : Record}

inductive Lineage (m : Records) : String → List (String × Record) → Prop
  | root {name : String} {r : Record} (hf : m.find? name = some r) (hg : r.group = "") :
    Lineage m name [(name, r)]
  | child {name : String} {r : Record} {es : List (String × Record)} (hf : m.find? name = some r)
    (hg : r.group ≠ "") (h : Lineage m r.group es) : Lineage m name ((name, r) :: es)

namespace Lineage

theorem head (h : Lineage m name es) : ∃ r rest, m.find? name = some r ∧ es = (name, r) :: rest := by
  cases h with
  | root hf _ => exact ⟨_, _, hf, rfl⟩
  | child hf _ _ => exact ⟨_, _, hf, rfl⟩

theorem unique (h : Lineage m name es) (h' : Lineage m name es') : es = es' := by
  induction h generalizing es' with
  | root hf hg => cases h' with
    | root hf' _ => rw [Option.some.inj (hf.symm.trans hf')]
    | child hf' hg' _ =>
      obtain rfl := Option.some.inj (hf.symm.trans hf')
      exact absurd hg hg'
  | child hf hg h ih => cases h' with
    | root hf' hg' =>
      obtain rfl := Option.some.inj (hf.symm.trans hf')
      exact absurd hg' hg
    | child hf' _ h' =>
      obtain rfl := Option.some.inj (hf.symm.trans hf')
      rw [ih h']

/-- From a record on the way, the rest of the way leads to the root. -/
theorem rest (h : Lineage m name es) (he : e ∈ es) : ∃ es', Lineage m e.1 es' ∧ es' <:+ es := by
  induction h with
  | root hf hg =>
    obtain rfl := List.mem_singleton.1 he
    exact ⟨_, .root hf hg, List.suffix_rfl⟩
  | child hf hg h ih =>
    rcases List.mem_cons.1 he with rfl | he
    · exact ⟨_, .child hf hg h, List.suffix_rfl⟩
    · obtain ⟨es', h', hs⟩ := ih he
      exact ⟨es', h', hs.trans (List.suffix_cons ..)⟩

theorem nodup (h : Lineage m name es) : (es.map (·.1)).Nodup := by
  induction h with
  | root hf hg => simp
  | @child name r es hf hg h ih =>
    rw [List.map_cons]
    refine List.nodup_cons.2 ⟨fun hm => ?_, ih⟩
    -- The name would have a second way to the root, which is a part of the first.
    obtain ⟨e, he, hname⟩ := List.mem_map.1 hm
    obtain ⟨es', h', hs⟩ := h.rest he
    rw [hname] at h'
    have hlen : es'.length = ((name, r) :: es).length := congrArg _ (h'.unique (.child hf hg h))
    have hle := hs.length_le
    rw [List.length_cons] at hlen; omega

theorem of_mem (h : Lineage m name es) (he : e ∈ es) :
    m.find? e.1 = some e.2 ∧ ReflTransGen m.Under name e.1 := by
  induction h with
  | root hf hg =>
    obtain rfl := List.mem_singleton.1 he
    exact ⟨hf, .refl⟩
  | child hf hg h ih =>
    rcases List.mem_cons.1 he with rfl | he
    · exact ⟨hf, .refl⟩
    · obtain ⟨hf', hu⟩ := ih he
      exact ⟨hf', .head ⟨_, hf, rfl⟩ hu⟩

theorem under_root (h : Lineage m name es) : ReflTransGen m.Under name "" := by
  induction h with
  | root hf hg => exact .single ⟨_, hf, hg⟩
  | child hf hg h ih => exact .head ⟨_, hf, rfl⟩ ih

/-- Only the records on the way count. -/
theorem congr (h : Lineage m name es) (hm : ∀ e ∈ es, m'.find? e.1 = some e.2) :
    Lineage m' name es := by
  induction h with
  | root hf hg => exact .root (hm _ List.mem_cons_self) hg
  | child hf hg h ih =>
    exact .child (hm _ List.mem_cons_self) hg (ih fun e he => hm e (List.mem_cons_of_mem _ he))

theorem contains_group (h : Lineage m name es) (hf : m.find? name = some r) (hg : r.group ≠ "") :
    m.contains r.group = true := by
  cases h with
  | root hf' hg' =>
    obtain rfl := Option.some.inj (hf.symm.trans hf')
    exact absurd hg' hg
  | child hf' _ h =>
    obtain rfl := Option.some.inj (hf.symm.trans hf')
    obtain ⟨p, -, hp, -⟩ := h.head
    exact NameMap.contains_eq_true.2 ⟨p, hp⟩

/-- Above the first record of the way its name is not met again. -/
theorem not_seen (h : Lineage m name ((name, r) :: es)) (hseen : ∀ e ∈ (name, r) :: es, e.1 ∉ seen) :
    ∀ e ∈ es, e.1 ∉ name :: seen := by
  intro e he hmem
  have hfresh : name ∉ es.map (·.1) := (List.nodup_cons.1 h.nodup).1
  rcases List.mem_cons.1 hmem with heq | hmem
  · exact hfresh (heq ▸ List.mem_map_of_mem he)
  · exact hseen e (List.mem_cons_of_mem _ he) hmem

end Lineage

/-! ## The search -/

theorem chain_zero : chain m start 0 seen name ≠ .ok es := by
  rw [chain]
  split <;> nofun

/-- A chain is a member that is met for the first time and, if it is no root, the chain of its
parent. -/
theorem chain_succ : chain m start (levels + 1) seen name = .ok es ↔ name ∉ seen ∧ ∃ r rest,
    m.find? name = some r ∧ es = (name, r) :: rest ∧ (r.group = "" ∧ rest = [] ∨
      r.group ≠ "" ∧ chain m start levels (name :: seen) r.group = .ok rest) := by
  rw [chain]
  by_cases hs : name ∈ seen
  · simp [hs]
  simp only [hs, if_false, not_false_eq_true, true_and]
  cases hf : m.find? name with
  | none => simp
  | some r =>
    simp only [Option.some.injEq, exists_and_left, exists_eq_left']
    cases hg : r.groupName? with
    | none =>
      have hr := Record.groupName?_eq_none.1 hg
      simp only [hr, ne_eq, not_true_eq_false, false_and, or_false, true_and, Except.ok.injEq]
      exact ⟨fun h => ⟨[], h.symm, rfl⟩, fun ⟨rest, h, hrest⟩ => by rw [h, hrest]⟩
    | some parent =>
      obtain ⟨rfl, hr⟩ := Record.groupName?_eq_some.1 hg
      simp only [hr, false_and, ne_eq, not_false_eq_true, true_and, false_or]
      cases hc : chain m start levels (name :: seen) r.group with
      | error e => simp [Functor.map, Except.map]
      | ok rest => simp [Functor.map, Except.map, eq_comm (a := es)]

/-- The search finds the way to the root if it has as many levels and none of the records on the way
has been seen. -/
theorem chain_eq_ok_iff : chain m start levels seen name = .ok es ↔
    Lineage m name es ∧ es.length ≤ levels ∧ ∀ e ∈ es, e.1 ∉ seen := by
  constructor
  · intro h
    induction levels generalizing seen name es with
    | zero => exact absurd h chain_zero
    | succ levels ih =>
      obtain ⟨hs, r, rest, hf, rfl, ⟨hg, rfl⟩ | ⟨hg, hc⟩⟩ := chain_succ.1 h
      · exact ⟨.root hf hg, by simp, by simpa using hs⟩
      · obtain ⟨hl, hlen, hseen⟩ := ih hc
        refine ⟨.child hf hg hl, by simpa using hlen, List.forall_mem_cons.2 ⟨hs, fun e he => ?_⟩⟩
        exact fun hmem => hseen e he (List.mem_cons_of_mem _ hmem)
  · rintro ⟨h, hlen, hseen⟩
    induction h generalizing levels seen with
    | root hf hg =>
      obtain ⟨levels, rfl⟩ := Nat.exists_eq_add_one_of_ne_zero (Nat.ne_zero_of_lt hlen)
      exact chain_succ.2 ⟨hseen _ List.mem_cons_self, _, [], hf, rfl, .inl ⟨hg, rfl⟩⟩
    | @child name r es hf hg h ih =>
      obtain ⟨levels, rfl⟩ := Nat.exists_eq_add_one_of_ne_zero (Nat.ne_zero_of_lt hlen)
      have hrest := ih (by simpa using hlen) ((Lineage.child hf hg h).not_seen hseen)
      exact chain_succ.2 ⟨hseen _ List.mem_cons_self, r, es, hf, rfl, .inr ⟨hg, hrest⟩⟩

/-- A way that has more records than levels is too long, and nothing else is found to be wrong with it. -/
theorem chain_of_long (h : Lineage m name es) (hlen : levels < es.length)
    (hseen : ∀ e ∈ es, e.1 ∉ seen) :
    chain m start levels seen name = .error (.corrupt (.tooDeep start)) := by
  induction levels generalizing seen name es with
  | zero =>
    obtain ⟨r, rest, -, rfl⟩ := h.head
    rw [chain, if_neg (hseen _ List.mem_cons_self)]
  | succ levels ih =>
    cases h with
    | root hf hg => simp at hlen
    | @child _ r es hf hg h =>
      have hrest := ih h (by simpa using hlen) ((Lineage.child hf hg h).not_seen hseen)
      have hgroup : r.groupName? = some r.group := Record.groupName?_eq_some.2 ⟨rfl, hg⟩
      rw [chain, if_neg (hseen _ List.mem_cons_self)]
      simp only [hf, hgroup, hrest]
      rfl

end Records

end VaultAgent.Store
