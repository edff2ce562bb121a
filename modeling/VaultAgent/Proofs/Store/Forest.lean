import VaultAgent.Proofs.Store.Acceptance

/-!
# Stores that were filled by their own operations

Nothing looks for cycles when a secret is stored. There are none all the same: a new record is put
under one that is stored, and none was put under its own name before, since that was not stored. So the
records of a store that was `Grown` from an empty one are a `Forest`, whatever failed on the way.
-/

namespace VaultAgent.Store

open VaultAgent.Action
open Relation (ReflTransGen)

namespace Records

variable {m : Records} {name target : String} {secret : Secret} {es : List (String × Record)}
  {r : Record}

/-- From every name the groups lead to a root, and all public data are base64. -/
structure Forest (m : Records) : Prop where
  lineage : ∀ name, m.contains name = true → ∃ es, Lineage m name es
  base64 : ∀ name r, m.find? name = some r → ∃ bytes, r.publicBytes = .ok bytes

/-- What is not grouped under a name keeps its way to the root when that name is taken out. -/
theorem Lineage.without (h : Lineage m name es) (hu : ¬ ReflTransGen m.Under name target) :
    Lineage (m.without target) name es := by
  refine h.congr fun e he => ?_
  obtain ⟨hf, hne⟩ := h.of_mem he
  exact find?_without.2 ⟨hf, fun het => hu (hne.trans het)⟩

namespace Forest

theorem empty : Forest NameMap.empty := by
  refine ⟨fun name hc => ?_, fun name r hf => ?_⟩
  · obtain ⟨r, hf⟩ := NameMap.contains_eq_true.1 hc
    rw [NameMap.find?_empty] at hf
    cases hf
  · rw [NameMap.find?_empty] at hf
    cases hf

theorem withSecret (h : m.Forest) (ha : m.Accepts secret) : (m.withSecret secret).Forest := by
  obtain ⟨hn, hparent⟩ := ha
  constructor
  · intro name hc
    by_cases hname : secret.name = name
    · subst hname
      by_cases hg : secret.vaultGroup = ""
      · exact ⟨_, lineage_of_no_group hg⟩
      · -- The new record is a leaf, below a parent that is stored.
        obtain ⟨es, hl⟩ := h.lineage _ (hparent _ (Secret.groupName?_of_vaultGroup hg))
        exact ⟨_, lineage_of_group hn hg hl⟩
    · obtain ⟨r, hf⟩ := NameMap.contains_eq_true.1 hc
      rw [find?_withSecret, if_neg hname] at hf
      obtain ⟨es, hl⟩ := h.lineage name (NameMap.contains_eq_true.2 ⟨r, hf⟩)
      exact ⟨es, hl.withSecret hn⟩
  · intro name r hf
    rw [find?_withSecret] at hf
    split at hf
    · cases hf
      exact ⟨_, Record.publicBytes_ofSecret secret⟩
    · exact h.base64 name r hf

theorem without (h : m.Forest) (target : String) : (m.without target).Forest := by
  constructor
  · intro name hc
    obtain ⟨r, hf⟩ := NameMap.contains_eq_true.1 hc
    obtain ⟨hf, hu⟩ := find?_without.1 hf
    obtain ⟨es, hl⟩ := h.lineage name (NameMap.contains_eq_true.2 ⟨r, hf⟩)
    exact ⟨es, hl.without hu⟩
  · intro name r hf
    exact h.base64 name r (find?_without.1 hf).1

/-- In a forest only the length of a way can be at fault. -/
theorem secret_of_lineage (h : m.Forest) (hl : Lineage m name es) :
    (es.length ≤ maxDepth → ∃ t, m.secret name = .ok t) ∧
      (maxDepth < es.length → m.secret name = .error (.corrupt (.tooDeep name))) := by
  constructor
  · intro hlen
    exact exists_secret hl hlen fun e he => h.base64 e.1 e.2 (hl.of_mem he).1
  · exact secret_of_long hl

end Forest

end Records

/-! ## The operations -/

variable {s : Store} {d : Disk} {secret : Secret} {name : String}

/-- An insertion stores a secret that is accepted, or nothing. -/
theorem after_insert (s : Store) (d : Disk) (secret : Secret) :
    ((insert secret).after (s, d)).1 = s ∨ s.records.Accepts secret ∧
      ((insert secret).after (s, d)).1 = { s with records := s.records.withSecret secret } := by
  cases h : insert secret (s, d) with
  | ok u w' =>
    rw [after_of_ok h]
    obtain ⟨ha, hw, -⟩ := insert_eq_ok h
    exact .inr ⟨ha, hw⟩
  | error e w' =>
    rw [after_of_error h]
    exact .inl (insert_eq_error h).1

/-- A removal takes out all that is grouped under the name, or nothing. -/
theorem after_remove (s : Store) (d : Disk) (name : String) :
    ((remove name).after (s, d)).1 = s ∨
      ((remove name).after (s, d)).1 = { s with records := s.records.without name } := by
  cases h : remove name (s, d) with
  | ok removed w' =>
    rw [after_of_ok h]
    cases hc : s.records.contains name with
    | true => exact .inr (remove_eq_ok_of_contains hc h).2.1
    | false =>
      rw [remove_of_not_contains hc] at h
      cases h
      exact .inl rfl
  | error e w' =>
    rw [after_of_error h]
    exact .inl (remove_eq_error h).1

/-- The store has come about from an empty one by insertions and removals, whether they succeeded or
failed. The disk may be another one each time. -/
inductive Grown : Store → Prop
  | empty (path : Path) : Grown ⟨path, NameMap.empty⟩
  | insert {s : Store} (h : Grown s) (secret : Secret) (d : Disk) :
    Grown ((Store.insert secret).after (s, d)).1
  | remove {s : Store} (h : Grown s) (name : String) (d : Disk) :
    Grown ((Store.remove name).after (s, d)).1

theorem Grown.forest (h : Grown s) : s.records.Forest := by
  induction h with
  | empty => exact .empty
  | @insert s h secret d ih =>
    rcases after_insert s d secret with heq | ⟨ha, heq⟩
    · rw [heq]
      exact ih
    · rw [heq]
      exact ih.withSecret ha
  | @remove s h name d ih =>
    rcases after_remove s d name with heq | heq
    · rw [heq]
      exact ih
    · rw [heq]
      exact ih.without name

/-- In a store that its own operations filled a parent is stored, and from every name the groups lead to
a root, by no name twice. A secret is not found only if its way has more records than a chain may
have. -/
theorem resolves_unless_deep_of_grown (h : Grown s) :
    (∀ name r parent, s.records.find? name = some r → r.groupName? = some parent →
      s.contains parent = true) ∧
    ∀ name, s.contains name = true → ∃ es, Records.Lineage s.records name es ∧
      (es.map (·.1)).Nodup ∧ (es.length ≤ maxDepth → ∃ t, s.secret name = .ok t) ∧
      (maxDepth < es.length → s.secret name = .error (.corrupt (.tooDeep name))) := by
  have hforest := h.forest
  constructor
  · intro name r parent hf hg
    obtain ⟨rfl, hne⟩ := Record.groupName?_eq_some.1 hg
    obtain ⟨es, hl⟩ := hforest.lineage name (NameMap.contains_eq_true.2 ⟨r, hf⟩)
    exact hl.contains_group hf hne
  · intro name hc
    obtain ⟨es, hl⟩ := hforest.lineage name hc
    exact ⟨es, hl, hl.nodup, hforest.secret_of_lineage hl⟩

/-- A disk on which every step fails. -/
def brokenDisk : Disk :=
  { Disk.empty with fault? := fun _ => some ⟨.fault "I/O error", 0⟩ }

/-- `a` is stored, `b` is stored under it, and it cannot be removed. -/
def planted : Store :=
  let s₀ : Store := ⟨plainPath, NameMap.empty⟩
  let s₁ := ((insert ⟨⟨"a", "", "", "", []⟩, []⟩).after (s₀, Disk.empty)).1
  let s₂ := ((insert (plainSecret "b" "a")).after (s₁, Disk.empty)).1
  ((remove "a").after (s₂, brokenDisk)).1

theorem resolves_unless_deep_of_planted : Grown planted ∧
    planted.records = .ofList [("a", .plain ""), ("b", .plain "a")] ∧
    (∀ name r parent, planted.records.find? name = some r → r.groupName? = some parent →
      planted.contains parent = true) ∧
    ∀ name, planted.contains name = true → ∃ es, Records.Lineage planted.records name es ∧
      (es.map (·.1)).Nodup ∧ (es.length ≤ maxDepth → ∃ t, planted.secret name = .ok t) ∧
      (maxDepth < es.length → planted.secret name = .error (.corrupt (.tooDeep name))) := by
  have hg : Grown planted := .remove (.insert (.insert (.empty plainPath) _ _) _ _) _ _
  exact ⟨hg, by decide +kernel, resolves_unless_deep_of_grown hg⟩

end VaultAgent.Store
