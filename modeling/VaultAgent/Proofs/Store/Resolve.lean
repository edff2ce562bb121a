import VaultAgent.Proofs.Store.Lineage

/-!
# Records that resolve

A name resolves if the way from it to a root is not too long and all public data on it are base64
(`secret_eq_ok`). What it gives depends on that way only (`secret_congr`), so records that all resolve
still do after a new one has been put under them, and after all that is grouped under a name has been
taken out.
-/

namespace VaultAgent.Store

open VaultAgent.Action
open Relation (ReflTransGen)

namespace Records

variable {m m' : Records} {start name other target : String} {es rest : List (String × Record)}
  {e : String × Record} {r : Record} {s : Secret}

/-! ## Secrets -/

theorem member_eq_ok {k : Member} : member name r = .ok k ↔ ∃ publicData,
    r.publicBytes = .ok publicData ∧ k = ⟨name, r.fileId, r.capId, r.secretType, publicData⟩ := by
  rw [member]
  cases r.publicBytes <;> simp [eq_comm]

theorem members_cons {ms : List Member} : members ((name, r) :: rest) = .ok ms ↔
    ∃ k above, member name r = .ok k ∧ members rest = .ok above ∧ ms = k :: above := by
  rw [members]
  simp only [except_bind_eq_ok]
  constructor
  · rintro ⟨above, ha, k, hk, h⟩
    cases h
    exact ⟨k, above, hk, ha, rfl⟩
  · rintro ⟨k, above, hk, ha, rfl⟩
    exact ⟨above, ha, k, hk, rfl⟩

theorem names_of_members {ms : List Member} (h : members es = .ok ms) :
    ms.map (·.name) = es.map (·.1) := by
  induction es generalizing ms with
  | nil => cases h; rfl
  | cons e es ih =>
    obtain ⟨k, above, hk, ha, rfl⟩ := members_cons.1 h
    obtain ⟨publicData, -, rfl⟩ := member_eq_ok.1 hk
    rw [List.map_cons, List.map_cons, ih ha]

theorem exists_members (h : ∀ e ∈ es, ∃ bytes, e.2.publicBytes = .ok bytes) :
    ∃ ms, members es = .ok ms := by
  induction es with
  | nil => exact ⟨[], rfl⟩
  | cons e es ih =>
    obtain ⟨⟨bytes, hb⟩, hes⟩ := List.forall_mem_cons.1 h
    obtain ⟨ms, hms⟩ := ih hes
    exact ⟨_, members_cons.2 ⟨_, ms, member_eq_ok.2 ⟨bytes, hb, rfl⟩, hms, rfl⟩⟩

theorem secret_eq_ok : m.secret name = .ok s ↔ ∃ es, Lineage m name es ∧ es.length ≤ maxDepth ∧
    members es = .ok (s.toMember :: s.ancestors) := by
  have hchain : m.secret name = .ok s ↔ ∃ es, chain m name maxDepth [] name = .ok es ∧
      members es = .ok (s.toMember :: s.ancestors) := by
    rw [secret]
    cases hc : chain m name maxDepth [] name with
    | error e => simp [bind, Except.bind]
    | ok es =>
      cases hm : members es with
      | error e => simp [bind, Except.bind, hm]
      | ok ms =>
        cases ms with
        | nil => simp [bind, Except.bind, hm, throw, throwThe, MonadExceptOf.throw]
        | cons first ancestors =>
          obtain ⟨k, above⟩ := s
          simp [bind, Except.bind, hm, pure, Except.pure]
  rw [hchain]
  refine exists_congr fun es => ?_
  rw [chain_eq_ok_iff, and_assoc, and_assoc]
  exact and_congr_right fun _ => and_congr_right fun _ => and_iff_right fun _ _ => List.not_mem_nil

/-- What lies on the way to the root is a secret if there is not too much of it. -/
theorem exists_secret (h : Lineage m name es) (hlen : es.length ≤ maxDepth)
    (hp : ∀ e ∈ es, ∃ bytes, e.2.publicBytes = .ok bytes) : ∃ s, m.secret name = .ok s := by
  obtain ⟨ms, hms⟩ := exists_members hp
  obtain ⟨r, rest, -, rfl⟩ := h.head
  obtain ⟨k, above, -, -, rfl⟩ := members_cons.1 hms
  exact ⟨⟨k, above⟩, secret_eq_ok.2 ⟨_, h, hlen, hms⟩⟩

/-- A way that is too long is the fault that is reported, whatever the records hold. -/
theorem secret_of_long (h : Lineage m name es) (hlen : maxDepth < es.length) :
    m.secret name = .error (.corrupt (.tooDeep name)) := by
  rw [secret, chain_of_long h hlen fun _ _ => List.not_mem_nil]
  rfl

/-- What resolves is stored under its name, with the same public data. -/
theorem find?_of_secret (h : m.secret name = .ok s) :
    s.name = name ∧ ∃ r, m.find? name = some r ∧ r.publicBytes = .ok s.publicData := by
  obtain ⟨es, hl, -, hm⟩ := secret_eq_ok.1 h
  obtain ⟨r, rest, hf, rfl⟩ := hl.head
  obtain ⟨k, above, hk, -, hms⟩ := members_cons.1 hm
  obtain ⟨rfl, -⟩ := List.cons.inj hms
  obtain ⟨publicData, hp, hk⟩ := member_eq_ok.1 hk
  rw [hk]
  exact ⟨rfl, r, hf, hp⟩

/-- Of the records only those count that a name is grouped under. -/
theorem secret_congr (h : m.secret name = .ok s) (hm : ∀ other r, ReflTransGen m.Under name other →
    m.find? other = some r → m'.find? other = some r) : m'.secret name = .ok s := by
  obtain ⟨es, hl, hlen, hms⟩ := secret_eq_ok.1 h
  refine secret_eq_ok.2 ⟨es, hl.congr fun e he => ?_, hlen, hms⟩
  obtain ⟨hf, hu⟩ := hl.of_mem he
  exact hm _ _ hu hf

/-! ## All of them -/

/-- Every name that is stored resolves. -/
def Resolves (m : Records) : Prop :=
  ∀ name, m.contains name = true → ∃ s, m.secret name = .ok s

theorem secrets_eq_ok {all : List Secret} (h : m.secrets = .ok all) :
    m.Resolves ∧ ∀ s, s ∈ all ↔ ∃ name, m.secret name = .ok s := by
  obtain ⟨hall, hof⟩ := mem_of_mapM_eq_ok h
  refine ⟨fun name hc => ?_, fun s => ⟨fun hs => ?_, fun ⟨name, hs⟩ => ?_⟩⟩
  · obtain ⟨s, -, hs⟩ := hall name (NameMap.mem_names.2 hc)
    exact ⟨s, hs⟩
  · obtain ⟨name, -, hs⟩ := hof s hs
    exact ⟨name, hs⟩
  · obtain ⟨-, r, hf, -⟩ := find?_of_secret hs
    obtain ⟨s', hmem, hs'⟩ := hall name (NameMap.mem_names.2 (NameMap.contains_eq_true.2 ⟨r, hf⟩))
    cases hs.symm.trans hs'
    exact hmem

theorem Resolves.exists_secrets (h : m.Resolves) : ∃ all, m.secrets = .ok all :=
  exists_mapM_eq_ok fun name hn => h name (NameMap.mem_names.1 hn)

namespace Resolves

theorem under_root (h : m.Resolves) (hn : m.contains name = true) :
    ReflTransGen m.Under name "" := by
  obtain ⟨s, hs⟩ := h name hn
  obtain ⟨es, hl, -⟩ := secret_eq_ok.1 hs
  exact hl.under_root

theorem without_root (h : m.Resolves) : m.without "" = NameMap.empty := by
  refine NameMap.ext fun name => Option.ext fun r => ?_
  rw [find?_without, NameMap.find?_empty]
  constructor
  · rintro ⟨hf, hu⟩
    exact absurd (h.under_root (NameMap.contains_eq_true.2 ⟨r, hf⟩)) hu
  · nofun

/-- A group is stored, unless it is none. -/
theorem contains_group (h : m.Resolves) (hu : m.Under name other) :
    other = "" ∨ m.contains other = true := by
  obtain ⟨r, hf, rfl⟩ := hu
  obtain ⟨s, hs⟩ := h name (NameMap.contains_eq_true.2 ⟨r, hf⟩)
  obtain ⟨es, hl, -⟩ := secret_eq_ok.1 hs
  exact or_iff_not_imp_left.2 (hl.contains_group hf)

theorem insert (h : m.Resolves) (hn : m.contains target = false)
    (hs : secret (m.insert target r) target = .ok s) : Resolves (m.insert target r) := by
  intro name hc
  obtain ⟨p, hp⟩ := NameMap.contains_eq_true.1 hc
  rw [NameMap.find?_insert] at hp
  by_cases hname : target = name
  · exact ⟨s, hname ▸ hs⟩
  · rw [if_neg hname] at hp
    obtain ⟨s', hs'⟩ := h name (NameMap.contains_eq_true.2 ⟨p, hp⟩)
    refine ⟨s', secret_congr hs' fun other q _ hq => ?_⟩
    have hne : target ≠ other := by
      rintro rfl
      simp [NameMap.contains, hq] at hn
    rw [NameMap.find?_insert, if_neg hne, hq]

/-- What is not grouped under a name does not need it. -/
theorem without (h : m.Resolves) (target : String) : (m.without target).Resolves := by
  intro name hc
  obtain ⟨p, hp⟩ := NameMap.contains_eq_true.1 hc
  obtain ⟨hp, hu⟩ := find?_without.1 hp
  obtain ⟨s, hs⟩ := h name (NameMap.contains_eq_true.2 ⟨p, hp⟩)
  exact ⟨s, secret_congr hs fun other q hno hq =>
    find?_without.2 ⟨hq, fun hot => hu (hno.trans hot)⟩⟩

end Resolves

end Records

end VaultAgent.Store
