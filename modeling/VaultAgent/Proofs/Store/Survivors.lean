import VaultAgent.Proofs.Store.Ready
import VaultAgent.Proofs.Store.Resolution

/-!
# What a removal leaves alone

The chain of a name is read from no other records than those that the groups lead to from there
(`chain_eq`). The search below the name that is removed, which goes the other way, finds none of them
unless it finds the first one (`alike_without`), so a name that is left gives what it gave before
(`secret_without`), be it a secret or a fault. All secrets that were listed before are listed again,
except those of the names that went (`survivors_resolve_alike`).
-/

namespace VaultAgent.Store

open Relation (ReflTransGen)

namespace Records

variable {m m' : Records} {start name target : String} {all : List Secret}

/-- The groups lead from a name through the same records in both. -/
def Alike (m m' : Records) (name : String) : Prop :=
  ∀ other, ReflTransGen m.Under name other → m'.find? other = m.find? other

theorem Alike.group {r : Record} (h : Alike m m' name) (hf : m.find? name = some r) :
    Alike m m' r.group :=
  fun other hu => h other (.head ⟨r, hf, rfl⟩ hu)

theorem chain_eq (h : Alike m m' name) (levels : Nat) (seen : List String) :
    chain m' start levels seen name = chain m start levels seen name := by
  induction levels generalizing name seen with
  | zero => rw [chain, chain]
  | succ levels ih =>
    by_cases hs : name ∈ seen
    · rw [chain_of_seen hs, chain_of_seen hs]
    have hfind := h name .refl
    cases hf : m.find? name with
    | none =>
      rw [chain_of_none hs hf, chain_of_none hs (hfind.trans hf)]
    | some r =>
      rw [chain_of_some hs hf, chain_of_some hs (hfind.trans hf)]
      cases hg : r.groupName? with
      | none => rfl
      | some parent =>
        obtain ⟨rfl, -⟩ := Record.groupName?_eq_some.1 hg
        simp only
        rw [ih (h.group hf)]

theorem secret_eq (h : Alike m m' name) : m'.secret name = m.secret name := by
  rw [secret, secret, chain_eq h]

/-! ## Taking out what is grouped under a name -/

theorem contains_of_without (h : (m.without target).contains name = true) :
    m.contains name = true ∧ ¬ ReflTransGen m.Under name target := by
  obtain ⟨r, hf⟩ := NameMap.contains_eq_true.1 h
  obtain ⟨hf, hu⟩ := find?_without.1 hf
  exact ⟨NameMap.contains_eq_true.2 ⟨r, hf⟩, hu⟩

theorem alike_without (hu : ¬ ReflTransGen m.Under name target) : Alike m (m.without target) name := by
  intro other ho
  have hother : ¬ ReflTransGen m.Under other target := fun hot => hu (ho.trans hot)
  ext r
  rw [find?_without, and_iff_left hother]

theorem secret_without (h : (m.without target).contains name = true) :
    (m.without target).secret name = m.secret name :=
  secret_eq (alike_without (contains_of_without h).2)

/-- Secrets that are listed stay listed if each name that is left gives what it gave. -/
theorem ListsAll.filter (h : m.ListsAll all)
    (hm : ∀ name, m'.contains name = true → m.contains name = true ∧ m'.secret name = m.secret name) :
    m'.ListsAll (all.filter fun t => m'.contains t.name) := by
  refine ⟨h.sorted.filter _, fun name => ⟨fun hc => ?_, ?_⟩, fun t ht => ?_⟩
  · obtain ⟨t, ht, rfl⟩ := (h.names name).1 (hm name hc).1
    exact ⟨t, List.mem_filter.2 ⟨ht, hc⟩, rfl⟩
  · rintro ⟨t, ht, rfl⟩
    exact (List.mem_filter.1 ht).2
  · obtain ⟨ht, hc⟩ := List.mem_filter.1 ht
    rw [(hm t.name hc).2]
    exact h.resolved t ht

end Records

/-! ## The removal -/

variable {s s' : Store} {d d' : Disk} {removed : Records} {name : String}

/-- What is stored after a removal was stored before, and gives what it gave then. -/
theorem secret_of_remove (h : remove name (s, d) = .ok removed (s', d')) {other : String}
    (ho : s'.contains other = true) : s.contains other = true ∧ s'.secret other = s.secret other := by
  cases hc : s.records.contains name with
  | false =>
    rw [remove_of_not_contains hc] at h
    cases h
    exact ⟨ho, rfl⟩
  | true =>
    obtain ⟨-, hs, -⟩ := remove_eq_ok_of_contains hc h
    obtain rfl : s' = _ := hs
    exact ⟨(Records.contains_of_without ho).1, Records.secret_without ho⟩

/-- A name that is still stored after a removal gives the secret or the fault that it gave before. If
all secrets could be listed, they still can, and the list has lost the removed ones only. -/
theorem survivors_resolve_alike (h : remove name (s, d) = .ok removed (s', d')) :
    (∀ other, s'.contains other = true → s'.secret other = s.secret other) ∧
      ∀ all, s.secrets = .ok all → s'.secrets = .ok (all.filter fun t => s'.contains t.name) := by
  refine ⟨fun other ho => (secret_of_remove h ho).2, fun all hall => ?_⟩
  have hlists : s.records.ListsAll all := Records.secrets_eq_ok_iff.1 hall
  exact Records.secrets_eq_ok_iff.2 (hlists.filter fun other ho => secret_of_remove h ho)

/-- A record whose group is not stored, and two that are each other's group. -/
def brokenChains : Records :=
  .ofList [("orphan", .plain "gone"), ("team", .plain ""), ("a", .plain "b"), ("b", .plain "a")]

/-- A root with a member, and one without. -/
def twoTeams : Records :=
  .ofList [("team", .plain ""), ("member", .plain "team"), ("alone", .plain "")]

theorem survivors_of_teams :
    (∃ removed s' d',
      remove "team" (⟨plainPath, brokenChains⟩, diskWith brokenChains) = .ok removed (s', d') ∧
      ∀ other, s'.contains other = true →
        s'.secret other = Store.secret ⟨plainPath, brokenChains⟩ other) ∧
    ∃ all removed s' d', Store.secrets ⟨plainPath, twoTeams⟩ = .ok all ∧
      remove "team" (⟨plainPath, twoTeams⟩, diskWith twoTeams) = .ok removed (s', d') ∧
      s'.secrets = .ok (all.filter fun t => s'.contains t.name) := by
  have hall : ∃ all, Store.secrets ⟨plainPath, twoTeams⟩ = .ok all := ⟨_, rfl⟩
  obtain ⟨all, hall⟩ := hall
  obtain ⟨d₁, hbroken, -⟩ :=
    remove_of_holds (s := ⟨plainPath, brokenChains⟩) (holds_diskWith brokenChains) "team"
  obtain ⟨d₂, hteams, -⟩ :=
    remove_of_holds (s := ⟨plainPath, twoTeams⟩) (holds_diskWith twoTeams) "team"
  refine ⟨⟨_, _, d₁, hbroken, (survivors_resolve_alike hbroken).1⟩, all, _, _, d₂, hall, hteams, ?_⟩
  exact (survivors_resolve_alike hteams).2 all hall

end VaultAgent.Store
