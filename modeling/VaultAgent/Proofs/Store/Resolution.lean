import VaultAgent.Store
import VaultAgent.Proofs.Store.Resolve
import VaultAgent.Proofs.Text.Order

/-!
# What a name resolves to, and why it does not

`m.Climb name es next`: from `name` the groups lead through the records `es`, by none of them twice, and
on to `next`. A climb of no more records than a chain may have ends at a root (`secret_eq_ok_iff`), or
comes to a name that is not stored (`secret_eq_notFound_iff`); whatever else happens on the way is
corruption. All secrets are listed in the order of the bytes of their names, or the first of them that
does not resolve is reported (`resolves_along_groups`).
-/

namespace VaultAgent.Store

open VaultAgent.Action

namespace Records

variable {m : Records} {start name c : String} {levels : Nat} {seen : List String}
  {es : List (String × Record)} {e : String × Record} {r : Record} {next : Option String}
  {fault : StoreError}

/-- Each of the records is stored, and none comes twice. The first is that of `name`, and each other one
that of the group of the one before it; `next` is the group of the last one, if it has a group. -/
structure Climb (m : Records) (name : String) (es : List (String × Record)) (next : Option String) :
    Prop where
  stored : ∀ e ∈ es, m.find? e.1 = some e.2
  distinct : (es.map (·.1)).Nodup
  linked : es.map (some ·.1) ++ [next] = some name :: es.map (·.2.groupName?)

/-- The member has the name and the fields of the record, and the public data that are its base64. -/
structure IsMemberOf (e : String × Record) (k : Member) : Prop where
  name : k.name = e.1
  fileId : k.fileId = e.2.fileId
  capId : k.capId = e.2.capId
  secretType : k.secretType = e.2.secretType
  publicData : e.2.publicBytes = .ok k.publicData

/-! ## Climbing -/

namespace Climb

theorem nil_iff : m.Climb name [] next ↔ next = some name := by
  constructor
  · intro h
    exact (List.cons.inj h.linked).1
  · rintro rfl
    exact ⟨nofun, .nil, rfl⟩

theorem cons_iff : m.Climb name (e :: es) next ↔
    e.1 = name ∧ m.find? e.1 = some e.2 ∧ e.1 ∉ es.map (·.1) ∧
      (e.2.groupName? = none ∧ es = [] ∧ next = none ∨
        ∃ parent, e.2.groupName? = some parent ∧ m.Climb parent es next) := by
  constructor
  · rintro ⟨hstored, hdistinct, hlinked⟩
    obtain ⟨hname, hlinked⟩ := List.cons.inj hlinked
    obtain ⟨hnew, hdistinct⟩ := List.nodup_cons.1 hdistinct
    obtain ⟨he, hstored⟩ := List.forall_mem_cons.1 hstored
    refine ⟨Option.some.inj hname, he, hnew, ?_⟩
    cases hg : e.2.groupName? with
    | some parent =>
      rw [List.map_cons, hg] at hlinked
      exact .inr ⟨parent, rfl, hstored, hdistinct, hlinked⟩
    | none =>
      rw [List.map_cons, hg] at hlinked
      cases es with
      | nil => exact .inl ⟨rfl, rfl, (List.cons.inj hlinked).1⟩
      | cons e' es => cases (List.cons.inj hlinked).1
  · rintro ⟨rfl, he, hnew, ⟨hg, rfl, rfl⟩ | ⟨parent, hg, hstored, hdistinct, hlinked⟩⟩
    · refine ⟨by simpa using he, by simp, ?_⟩
      simp [hg]
    · refine ⟨List.forall_mem_cons.2 ⟨he, hstored⟩, List.nodup_cons.2 ⟨hnew, hdistinct⟩, ?_⟩
      simp [hg, ← hlinked]

/-- A climb that goes no further has come to a root. -/
theorem none_iff : m.Climb name es none ↔ Lineage m name es := by
  constructor
  · intro h
    induction es generalizing name with
    | nil => cases nil_iff.1 h
    | cons e es ih =>
      obtain ⟨rfl, he, -, ⟨hg, rfl, -⟩ | ⟨parent, hg, h⟩⟩ := cons_iff.1 h
      · exact .root he (Record.groupName?_eq_none.1 hg)
      · obtain ⟨rfl, hne⟩ := Record.groupName?_eq_some.1 hg
        exact .child he hne (ih h)
  · intro h
    have hnodup := h.nodup
    induction h with
    | root hf hg =>
      exact cons_iff.2 ⟨rfl, hf, by simp, .inl ⟨Record.groupName?_eq_none.2 hg, rfl, rfl⟩⟩
    | @child name r es hf hg h ih =>
      obtain ⟨hnew, hnodup⟩ := List.nodup_cons.1 hnodup
      exact cons_iff.2 ⟨rfl, hf, hnew, .inr ⟨_, Record.groupName?_eq_some.2 ⟨rfl, hg⟩, ih hnodup⟩⟩

end Climb

/-! ## The search -/

theorem chain_of_seen (hs : name ∈ seen) :
    chain m start levels seen name = .error (.corrupt (.cycle start name)) := by
  cases levels <;> rw [chain, if_pos hs]

theorem chain_of_none (hs : name ∉ seen) (hf : m.find? name = none) :
    chain m start (levels + 1) seen name = .error (.notFound name) := by
  rw [chain, if_neg hs]
  simp only [hf]

theorem chain_of_some (hs : name ∉ seen) (hf : m.find? name = some r) :
    chain m start (levels + 1) seen name = match r.groupName? with
      | none => .ok [(name, r)]
      | some parent => ((name, r) :: ·) <$> chain m start levels (name :: seen) parent := by
  rw [chain, if_neg hs]
  split
  · rename_i hnone
    cases hf.symm.trans hnone
  · rename_i r' hsome
    obtain rfl := Option.some.inj (hf.symm.trans hsome)
    rfl

theorem map_eq_error {α β ε : Type} {f : α → β} {x : Except ε α} {e : ε} :
    f <$> x = .error e ↔ x = .error e := by
  cases x <;> simp [Functor.map, Except.map]

/-- Besides a chain, the search gives a name that is not stored, or corruption. -/
theorem chain_eq_error (h : chain m start levels seen name = .error fault) :
    (∃ c, fault = .notFound c) ∨ ∃ what, fault = .corrupt what := by
  induction levels generalizing seen name with
  | zero =>
    rw [chain] at h
    split at h <;> cases h <;> exact .inr ⟨_, rfl⟩
  | succ levels ih =>
    by_cases hs : name ∈ seen
    · rw [chain_of_seen hs] at h
      cases h
      exact .inr ⟨_, rfl⟩
    cases hf : m.find? name with
    | none =>
      rw [chain_of_none hs hf] at h
      cases h
      exact .inl ⟨_, rfl⟩
    | some r =>
      rw [chain_of_some hs hf] at h
      split at h
      · cases h
      · exact ih (map_eq_error.1 h)

theorem climb_of_chain (h : chain m start levels seen name = .error (.notFound c)) :
    ∃ es, m.Climb name es (some c) ∧ m.find? c = none ∧ es.length < levels ∧ ∀ e ∈ es, e.1 ∉ seen := by
  induction levels generalizing seen name with
  | zero =>
    rw [chain] at h
    split at h <;> cases h
  | succ levels ih =>
    by_cases hs : name ∈ seen
    · rw [chain_of_seen hs] at h
      cases h
    cases hf : m.find? name with
    | none =>
      rw [chain_of_none hs hf] at h
      cases h
      exact ⟨[], Climb.nil_iff.2 rfl, hf, Nat.succ_pos _, List.forall_mem_nil _⟩
    | some r =>
      rw [chain_of_some hs hf] at h
      split at h
      · cases h
      · rename_i parent hg
        obtain ⟨es, hclimb, hnone, hlen, hseen⟩ := ih (map_eq_error.1 h)
        -- The rest of the search has counted `name` among the names seen.
        have hnew : name ∉ es.map (·.1) := by
          intro hmem
          obtain ⟨e, he, hname⟩ := List.mem_map.1 hmem
          exact hseen e he (hname ▸ List.mem_cons_self)
        refine ⟨(name, r) :: es, Climb.cons_iff.2 ⟨rfl, hf, hnew, .inr ⟨parent, hg, hclimb⟩⟩, hnone,
          Nat.succ_lt_succ hlen, List.forall_mem_cons.2 ⟨hs, fun e he hmem => ?_⟩⟩
        exact hseen e he (List.mem_cons_of_mem _ hmem)

/-- The search comes to a name that is not stored exactly if a climb leads there that meets none of the
names seen before, and if there is a level left for that name. -/
theorem chain_eq_notFound_iff (hc : c ∉ seen) :
    chain m start levels seen name = .error (.notFound c) ↔ ∃ es, m.Climb name es (some c) ∧
      m.find? c = none ∧ es.length < levels ∧ ∀ e ∈ es, e.1 ∉ seen := by
  constructor
  · exact climb_of_chain
  · rintro ⟨es, hclimb, hnone, hlen, hseen⟩
    induction es generalizing levels seen name with
    | nil =>
      obtain rfl := Option.some.inj (Climb.nil_iff.1 hclimb)
      obtain ⟨levels, rfl⟩ := Nat.exists_eq_add_one_of_ne_zero (Nat.ne_zero_of_lt hlen)
      exact chain_of_none hc hnone
    | cons e es ih =>
      obtain ⟨levels, rfl⟩ := Nat.exists_eq_add_one_of_ne_zero (Nat.ne_zero_of_lt hlen)
      obtain ⟨hs, hseen⟩ := List.forall_mem_cons.1 hseen
      obtain ⟨rfl, hf, hnew, ⟨-, -, hnext⟩ | ⟨parent, hg, hclimb⟩⟩ := Climb.cons_iff.1 hclimb
      · cases hnext
      have hne : c ≠ e.1 := by
        rintro rfl
        rw [hf] at hnone
        cases hnone
      rw [chain_of_some hs hf, hg]
      refine map_eq_error.2 (ih ?_ hclimb ?_ ?_)
      · exact List.not_mem_cons_of_ne_of_not_mem hne hc
      · exact Nat.lt_of_succ_lt_succ hlen
      · intro e' he' hmem
        rcases List.mem_cons.1 hmem with heq | hmem
        · exact hnew (heq ▸ List.mem_map_of_mem he')
        · exact hseen e' he' hmem

/-! ## Secrets -/

theorem member_eq_ok_iff {k : Member} : member e.1 e.2 = .ok k ↔ IsMemberOf e k := by
  rw [member_eq_ok]
  constructor
  · rintro ⟨publicData, hp, rfl⟩
    exact ⟨rfl, rfl, rfl, rfl, hp⟩
  · intro h
    refine ⟨k.publicData, h.publicData, ?_⟩
    rw [← h.name, ← h.fileId, ← h.capId, ← h.secretType]

theorem members_eq_ok {ms : List Member} : members es = .ok ms ↔ List.Forall₂ IsMemberOf es ms := by
  induction es generalizing ms with
  | nil =>
    rw [List.forall₂_nil_left_iff, members, Except.ok.injEq]
    exact eq_comm
  | cons e es ih =>
    rw [members_cons, List.forall₂_cons_left_iff]
    constructor
    · rintro ⟨k, above, hk, habove, rfl⟩
      exact ⟨k, above, member_eq_ok_iff.1 hk, ih.1 habove, rfl⟩
    · rintro ⟨k, above, hk, habove, rfl⟩
      exact ⟨k, above, member_eq_ok_iff.2 hk, ih.2 habove, rfl⟩

/-- Members are refused only for public data that are not base64. -/
theorem members_eq_error (h : members es = .error fault) : ∃ what, fault = .corrupt what := by
  induction es with
  | nil => cases h
  | cons e es ih =>
    obtain ⟨name, r⟩ := e
    rw [members] at h
    cases ha : members es with
    | error e =>
      rw [ha] at h
      cases h
      exact ih ha
    | ok above =>
      rw [ha] at h
      cases hp : r.publicBytes with
      | error bad =>
        simp only [member, hp, bind, Except.bind] at h
        cases h
        exact ⟨_, rfl⟩
      | ok bytes =>
        simp only [member, hp, bind, Except.bind] at h
        cases h

theorem secret_eq_ok_iff {t : Secret} : m.secret name = .ok t ↔ ∃ es, m.Climb name es none ∧
    es.length ≤ maxDepth ∧ List.Forall₂ IsMemberOf es (t.toMember :: t.ancestors) := by
  simp only [secret_eq_ok, Climb.none_iff, members_eq_ok]

/-- A secret is what its record says, and its parent is the one that the record names, which is stored. -/
theorem groupName?_of_secret {t : Secret} (h : m.secret name = .ok t) : t.name = name ∧
    ∃ r, m.find? name = some r ∧ IsMemberOf (name, r) t.toMember ∧ t.groupName? = r.groupName? ∧
      ∀ parent, t.groupName? = some parent → m.contains parent = true := by
  obtain ⟨es, hclimb, -, hmembers⟩ := secret_eq_ok_iff.1 h
  obtain ⟨e, es, hfirst, habove, rfl⟩ := List.forall₂_cons_right_iff.1 hmembers
  obtain ⟨rfl, hf, -, hgroup⟩ := Climb.cons_iff.1 hclimb
  refine ⟨hfirst.name, e.2, hf, hfirst, ?_⟩
  rw [Secret.groupName?]
  rcases hgroup with ⟨hg, rfl, -⟩ | ⟨parent, hg, hclimb⟩
  · rw [List.forall₂_nil_left_iff.1 habove, hg]
    exact ⟨rfl, nofun⟩
  · cases es with
    | nil => cases Climb.nil_iff.1 hclimb
    | cons e' es =>
      obtain ⟨k, above, hparent, -, ha⟩ := List.forall₂_cons_left_iff.1 habove
      obtain ⟨rfl, hf', -⟩ := Climb.cons_iff.1 hclimb
      rw [ha, hg]
      refine ⟨congrArg some hparent.name, fun parent hp => ?_⟩
      obtain rfl : e'.1 = parent := hparent.name.symm.trans (Option.some.inj hp)
      exact NameMap.contains_eq_true.2 ⟨e'.2, hf'⟩

/-- A secret is what its record says, and stands in the group that the record names. -/
theorem record_of_secret {t : Secret} (h : m.secret name = .ok t) :
    t.name = name ∧ ∃ r, m.find? name = some r ∧ r.publicBytes = .ok t.publicData ∧
      t.vaultGroup = r.group := by
  obtain ⟨hname, r, hf, hmember, hgroup, -⟩ := groupName?_of_secret h
  refine ⟨hname, r, hf, hmember.publicData, ?_⟩
  rw [Secret.vaultGroup, hgroup]
  cases hg : r.groupName? with
  | none => exact (Record.groupName?_eq_none.1 hg).symm
  | some parent => exact (Record.groupName?_eq_some.1 hg).1.symm

theorem secret_eq_error_iff : m.secret name = .error fault ↔
    chain m name maxDepth [] name = .error fault ∨
      ∃ es, chain m name maxDepth [] name = .ok es ∧ members es = .error fault := by
  rw [secret]
  cases hc : chain m name maxDepth [] name with
  | error e => simp [bind, Except.bind]
  | ok es =>
    cases hm : members es with
    | error e => simp [bind, Except.bind, hm]
    | ok ms =>
      -- A chain has a first member, so there is one to give.
      obtain ⟨r, rest, -, rfl⟩ := (chain_eq_ok_iff.1 hc).1.head
      obtain ⟨k, above, -, -, rfl⟩ := members_cons.1 hm
      simp [bind, Except.bind, hm, pure, Except.pure]

theorem secret_eq_notFound_iff : m.secret name = .error (.notFound c) ↔
    ∃ es, m.Climb name es (some c) ∧ m.find? c = none ∧ es.length < maxDepth := by
  have hmembers (es : List (String × Record)) : members es ≠ .error (.notFound c) := by
    intro h
    obtain ⟨what, hwhat⟩ := members_eq_error h
    cases hwhat
  simp [secret_eq_error_iff, hmembers, chain_eq_notFound_iff]

theorem secret_cases (m : Records) (name : String) : (∃ t, m.secret name = .ok t) ∨
    (∃ c, m.secret name = .error (.notFound c)) ∨ ∃ what, m.secret name = .error (.corrupt what) := by
  cases h : m.secret name with
  | ok t => exact .inl ⟨t, rfl⟩
  | error fault =>
    refine .inr ?_
    rcases secret_eq_error_iff.1 h with hc | ⟨es, -, hm⟩
    · rcases chain_eq_error hc with ⟨c, rfl⟩ | ⟨what, rfl⟩
      · exact .inl ⟨c, rfl⟩
      · exact .inr ⟨what, rfl⟩
    · obtain ⟨what, rfl⟩ := members_eq_error hm
      exact .inr ⟨what, rfl⟩

/-! ## All secrets -/

/-- The secrets that all names resolve to, each once and in the order of the bytes of their names. -/
structure ListsAll (m : Records) (all : List Secret) : Prop where
  sorted : all.Pairwise fun s t => Utf8.bytes s.name < Utf8.bytes t.name
  names : ∀ name, m.contains name = true ↔ ∃ t ∈ all, t.name = name
  resolved : ∀ t ∈ all, m.secret t.name = .ok t

theorem secrets_eq_ok_iff {all : List Secret} : m.secrets = .ok all ↔ m.ListsAll all := by
  rw [secrets, mapM_eq_ok_iff]
  constructor
  · intro h
    have hnames : m.names = all.map (·.name) := by
      have heq := h.imp fun _ _ hs => (find?_of_secret hs).1.symm
      rw [← List.forall₂_eq_eq_eq, List.forall₂_map_right_iff]
      exact heq
    refine ⟨?_, fun name => ?_, ?_⟩
    · have hsorted := m.sorted_names
      rw [hnames] at hsorted
      exact (List.pairwise_map.1 hsorted).imp Utf8.bytes_lt_bytes.2
    · rw [← NameMap.mem_names, hnames, List.mem_map]
    · rw [hnames, List.forall₂_map_left_iff] at h
      exact List.forall₂_same.1 h
  · rintro ⟨hsorted, hnames, hresolved⟩
    have hall : all.map (·.name) = m.names := by
      refine NameMap.eq_names ?_ fun name => ?_
      · exact List.pairwise_map.2 (hsorted.imp Utf8.bytes_lt_bytes.1)
      · rw [hnames, List.mem_map]
    rw [← hall, List.forall₂_map_left_iff]
    exact List.forall₂_same.2 hresolved

theorem length_secrets {all : List Secret} (h : m.secrets = .ok all) : all.length = m.size := by
  rw [secrets, mapM_eq_ok_iff] at h
  rw [← h.length_eq, NameMap.names, List.length_map]
  rfl

/-- The first name that does not resolve is the one whose fault is reported. -/
theorem secrets_eq_error_iff : m.secrets = .error fault ↔ ∃ name, m.contains name = true ∧
    m.secret name = .error fault ∧ ∀ other, m.contains other = true →
      Utf8.bytes other < Utf8.bytes name → ∃ t, m.secret other = .ok t := by
  have hsorted := m.sorted_names
  simp only [secrets, mapM_eq_error_iff, Utf8.bytes_lt_bytes, ← NameMap.mem_names]
  constructor
  · rintro ⟨before, name, rest, hm, hname, hbefore⟩
    rw [hm] at hsorted ⊢
    refine ⟨name, by simp, hname, fun other ho hlt => ?_⟩
    obtain ⟨-, hrest, -⟩ := List.pairwise_append.1 hsorted
    rcases List.mem_append.1 ho with ho | ho
    · exact hbefore other ho
    · rcases List.mem_cons.1 ho with rfl | ho
      · exact absurd hlt (String.lt_irrefl _)
      · exact absurd hlt (String.lt_asymm ((List.pairwise_cons.1 hrest).1 other ho))
  · rintro ⟨name, hmem, hname, hless⟩
    obtain ⟨before, rest, hm⟩ := List.append_of_mem hmem
    refine ⟨before, name, rest, hm, hname, fun other ho => hless other ?_ ?_⟩
    · rw [hm]
      exact List.mem_append_left _ ho
    · rw [hm] at hsorted
      exact (List.pairwise_append.1 hsorted).2.2 other ho name List.mem_cons_self

end Records

/-- A name resolves exactly to what its groups lead through, up to a root and within the length of a
chain; it is not found exactly if they come, within that length, to a name that is not stored; and
everything else is corruption. All secrets are listed exactly if every stored name resolves, and if not,
the first name that does not is at fault. -/
theorem resolves_along_groups (s : Store) :
    (∀ name,
      (∀ t, s.secret name = .ok t ↔ ∃ es, s.records.Climb name es none ∧ es.length ≤ maxDepth ∧
        List.Forall₂ Records.IsMemberOf es (t.toMember :: t.ancestors)) ∧
      (∀ c, s.secret name = .error (.notFound c) ↔ ∃ es, s.records.Climb name es (some c) ∧
        s.contains c = false ∧ es.length < maxDepth) ∧
      ((∃ t, s.secret name = .ok t) ∨ (∃ c, s.secret name = .error (.notFound c)) ∨
        ∃ what, s.secret name = .error (.corrupt what))) ∧
    ((∃ all, s.secrets = .ok all) ↔ ∀ name, s.contains name = true → ∃ t, s.secret name = .ok t) ∧
    (∀ all, s.secrets = .ok all ↔ s.records.ListsAll all) ∧
    ∀ fault, s.secrets = .error fault ↔ ∃ name, s.contains name = true ∧
      s.secret name = .error fault ∧ ∀ other, s.contains other = true →
        Utf8.bytes other < Utf8.bytes name → ∃ t, s.secret other = .ok t := by
  refine ⟨fun name => ⟨fun t => ?_, fun c => ?_, ?_⟩, ⟨?_, ?_⟩, fun all => ?_, fun fault => ?_⟩
  · exact Records.secret_eq_ok_iff
  · have hc : s.contains c = false ↔ s.records.find? c = none := NameMap.contains_eq_false
    rw [hc]
    exact Records.secret_eq_notFound_iff
  · exact s.records.secret_cases name
  · rintro ⟨all, hall⟩
    exact (Records.secrets_eq_ok hall).1
  · exact fun h => Records.Resolves.exists_secrets h
  · exact Records.secrets_eq_ok_iff
  · exact Records.secrets_eq_error_iff

end VaultAgent.Store
