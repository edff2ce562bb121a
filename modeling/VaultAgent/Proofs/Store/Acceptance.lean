import VaultAgent.Proofs.Base64
import VaultAgent.Proofs.Store.Ready
import VaultAgent.Proofs.Store.Resolve

/-!
# What an insertion lets in

An insertion looks at no more than whether the parent's name is stored. So a secret may get in whose
way to the root has one record too many, and one whose parent has the empty name, which its record does
not tell from no parent. Every other secret is given back as it was (`givesBack_iff_of_insert`).
-/

namespace VaultAgent.Store

open VaultAgent.Action

theorem Record.publicBytes_ofSecret (secret : Secret) :
    (Record.ofSecret secret).publicBytes = .ok secret.publicData :=
  Base64.ofText_text secret.publicData

theorem Secret.groupName?_of_vaultGroup {secret : Secret} (hg : secret.vaultGroup ≠ "") :
    secret.groupName? = some secret.vaultGroup := by
  unfold Secret.vaultGroup at hg ⊢
  cases h : secret.groupName? with
  | none =>
    rw [h] at hg
    exact absurd rfl hg
  | some group => rfl

namespace Records

variable {m : Records} {name : String} {secret t p : Secret} {es : List (String × Record)}
  {r : Record}

theorem find?_withSecret : (m.withSecret secret).find? name =
    if secret.name = name then some (.ofSecret secret) else m.find? name :=
  NameMap.find?_insert ..

theorem find?_withSecret_self : (m.withSecret secret).find? secret.name = some (.ofSecret secret) := by
  rw [find?_withSecret, if_pos rfl]

theorem find?_withSecret_of_find? (hn : m.contains secret.name = false) (hf : m.find? name = some r) :
    (m.withSecret secret).find? name = some r := by
  have hne : secret.name ≠ name := by
    rintro rfl
    rw [NameMap.contains_eq_false.1 hn] at hf
    cases hf
  rw [find?_withSecret, if_neg hne, hf]

theorem Lineage.withSecret (h : Lineage m name es) (hn : m.contains secret.name = false) :
    Lineage (m.withSecret secret) name es :=
  h.congr fun _ he => find?_withSecret_of_find? hn (h.of_mem he).1

theorem lineage_of_no_group (hg : secret.vaultGroup = "") :
    Lineage (m.withSecret secret) secret.name [(secret.name, .ofSecret secret)] :=
  .root find?_withSecret_self hg

theorem lineage_of_group (hn : m.contains secret.name = false) (hg : secret.vaultGroup ≠ "")
    (h : Lineage m secret.vaultGroup es) :
    Lineage (m.withSecret secret) secret.name ((secret.name, .ofSecret secret) :: es) :=
  .child find?_withSecret_self hg (h.withSecret hn)

/-- What is given back under the name of a new secret is that secret, its groups apart. -/
theorem toMember_of_secret (h : (m.withSecret secret).secret secret.name = .ok t) :
    t.toMember = secret.toMember := by
  obtain ⟨es, hl, -, hms⟩ := secret_eq_ok.1 h
  obtain ⟨r, rest, hf, rfl⟩ := hl.head
  obtain rfl := Option.some.inj (find?_withSecret_self.symm.trans hf)
  obtain ⟨k, above, hk, -, hcons⟩ := members_cons.1 hms
  obtain ⟨rfl, -⟩ := List.cons.inj hcons
  obtain ⟨publicData, hp, hk⟩ := member_eq_ok.1 hk
  rw [Record.publicBytes_ofSecret] at hp
  cases hp
  exact hk

theorem secret_of_no_group (hg : secret.vaultGroup = "") :
    (m.withSecret secret).secret secret.name = .ok ⟨secret.toMember, []⟩ :=
  secret_eq_ok.2 ⟨_, lineage_of_no_group hg, by simp [maxDepth], members_cons.2
    ⟨_, [], member_eq_ok.2 ⟨_, Record.publicBytes_ofSecret secret, rfl⟩, rfl, rfl⟩⟩

/-- Under a parent that resolves, a new secret resolves if there is room for one more on the way. -/
theorem secret_of_group (hn : m.contains secret.name = false) (hg : secret.vaultGroup ≠ "")
    (hp : m.secret secret.vaultGroup = .ok p) : (m.withSecret secret).secret secret.name =
      if p.ancestors.length + 2 ≤ maxDepth then .ok ⟨secret.toMember, p.toMember :: p.ancestors⟩
      else .error (.corrupt (.tooDeep secret.name)) := by
  obtain ⟨es, hl, -, hms⟩ := secret_eq_ok.1 hp
  have hlen : es.length = p.ancestors.length + 1 := by
    have hnames := congrArg List.length (names_of_members hms)
    simpa using hnames.symm
  have hnew := lineage_of_group hn hg hl
  split
  · rename_i hroom
    refine secret_eq_ok.2 ⟨_, hnew, by rw [List.length_cons, hlen]; omega, members_cons.2 ?_⟩
    exact ⟨_, _, member_eq_ok.2 ⟨_, Record.publicBytes_ofSecret secret, rfl⟩, hms, rfl⟩
  · rename_i hroom
    exact secret_of_long hnew (by rw [List.length_cons, hlen]; omega)

/-- The parent of a new secret, if it has one, has a name and leaves room for one more record. -/
def HasRoomFor (m : Records) (secret : Secret) : Prop :=
  ∀ parent, secret.groupName? = some parent →
    parent ≠ "" ∧ ∃ p, m.secret parent = .ok p ∧ p.ancestors.length + 2 ≤ maxDepth

theorem exists_secret_iff_hasRoomFor (hr : m.Resolves) (ha : m.Accepts secret) :
    (∃ t, (m.withSecret secret).secret secret.name = .ok t ∧ t.groupName? = secret.groupName?) ↔
      m.HasRoomFor secret := by
  cases hg : secret.groupName? with
  | none =>
    have hvault : secret.vaultGroup = "" := by rw [Secret.vaultGroup, hg]; rfl
    refine iff_of_true ⟨_, secret_of_no_group hvault, rfl⟩ fun parent hparent => ?_
    rw [hg] at hparent
    cases hparent
  | some parent =>
    have hvault : secret.vaultGroup = parent := by rw [Secret.vaultGroup, hg]; rfl
    by_cases hne : parent = ""
    · -- The record is written as that of a root.
      refine iff_of_false ?_ fun hroom => (hroom parent hg).1 hne
      rintro ⟨t, ht, hgt⟩
      rw [secret_of_no_group (hvault.trans hne)] at ht
      cases ht
      cases hgt
    · obtain ⟨p, hp⟩ := hr parent (ha.2 parent hg)
      have hname : p.name = parent := (find?_of_secret hp).1
      rw [secret_of_group ha.1 (hvault ▸ hne) (hvault ▸ hp)]
      constructor
      · rintro ⟨t, ht, -⟩ parent' hparent
        obtain rfl := Option.some.inj (hg.symm.trans hparent)
        split at ht
        · rename_i hroom
          exact ⟨hne, p, hp, hroom⟩
        · cases ht
      · intro hroom
        obtain ⟨-, p', hp', hroom⟩ := hroom parent hg
        cases hp.symm.trans hp'
        exact ⟨_, if_pos hroom, congrArg some hname⟩

end Records

/-! ## The insertion -/

variable {s s' : Store} {d d' : Disk} {secret : Secret} {all : List Secret} {u : Unit}

/-- The secret comes back under its name and in its group, and all secrets can be listed. -/
def GivesBack (s : Store) (secret : Secret) : Prop :=
  (∃ t, s.secret secret.name = .ok t ∧ t.groupName? = secret.groupName?) ∧
    ∃ all, s.secrets = .ok all

/-- Where all secrets could be listed, a new one comes back with its own data, if it does. It does, in
its group, and without harm to the others, if and only if its parent has a name and there is room for
one more record below that. -/
theorem givesBack_iff_of_insert (hl : s.secrets = .ok all)
    (h : insert secret (s, d) = .ok u (s', d')) :
    (∀ t, s'.secret secret.name = .ok t → t.toMember = secret.toMember) ∧
      (GivesBack s' secret ↔ s.records.HasRoomFor secret) := by
  obtain ⟨ha, hs', -⟩ := insert_eq_ok h
  obtain rfl : s' = _ := hs'
  have hr : s.records.Resolves := (Records.secrets_eq_ok hl).1
  refine ⟨fun t ht => Records.toMember_of_secret ht, ?_⟩
  rw [← Records.exists_secret_iff_hasRoomFor hr ha]
  exact and_iff_left_of_imp fun ⟨t, ht, _⟩ => (hr.insert ha.1 ht).exists_secrets

/-- A secret that says nothing but its name and that of its parent. -/
def plainSecret (name parent : String) : Secret :=
  ⟨⟨name, "", "", "", []⟩, [⟨parent, "", "", "", []⟩]⟩

theorem givesBack_iff_of_insert_under_root : ∃ all s' d',
    Store.secrets ⟨plainPath, .ofList [("a", .plain "")]⟩ = .ok all ∧
    insert (plainSecret "b" "a") (⟨plainPath, .ofList [("a", .plain "")]⟩,
      diskWith (.ofList [("a", .plain "")])) = .ok () (s', d') ∧
    (∀ t, s'.secret "b" = .ok t → t.toMember = (plainSecret "b" "a").toMember) ∧
    (GivesBack s' (plainSecret "b" "a") ↔
      Records.HasRoomFor (.ofList [("a", .plain "")]) (plainSecret "b" "a")) := by
  have hl : Store.secrets ⟨plainPath, .ofList [("a", .plain "")]⟩ =
      .ok [⟨⟨"a", "", "", "", []⟩, []⟩] := by decide +kernel
  have ha : Records.Accepts (.ofList [("a", .plain "")]) (plainSecret "b" "a") :=
    ⟨by decide, by rintro _ ⟨⟩; decide⟩
  obtain ⟨d', h, -⟩ := insert_of_accepts (s := ⟨plainPath, .ofList [("a", .plain "")]⟩) ha
    (holds_diskWith (.ofList [("a", .plain "")])).2
  exact ⟨_, _, d', hl, h, givesBack_iff_of_insert hl h⟩

/-! ### A group that is too deep -/

/-- The name of the `n`th record of a `ladder`. The one before the first is empty. -/
def rung (n : Nat) : String :=
  String.ofList (List.replicate n 'a')

/-- Records each of which is under the one before. The first is a root. -/
def ladder : Nat → Records
  | 0 => .empty
  | n + 1 => (ladder n).insert (rung (n + 1)) (.plain (rung n))

theorem rung_inj {k n : Nat} (h : rung k = rung n) : k = n := by
  have hlist := congrArg (List.length ∘ String.toList) h
  simpa [rung] using hlist

theorem find?_ladder {k n : Nat} (h : k < n) :
    (ladder n).find? (rung (k + 1)) = some (.plain (rung k)) := by
  induction n with
  | zero => omega
  | succ n ih =>
    rw [ladder, NameMap.find?_insert]
    by_cases hkn : n = k
    · rw [if_pos (by rw [hkn]), hkn]
    · rw [if_neg fun heq => hkn (by have := rung_inj heq; omega), ih (by omega)]

theorem of_find?_ladder {name : String} {r : Record} {n : Nat}
    (h : (ladder n).find? name = some r) : ∃ k, k < n ∧ name = rung (k + 1) := by
  induction n with
  | zero => cases h
  | succ n ih =>
    rw [ladder, NameMap.find?_insert] at h
    split at h
    · rename_i hname
      exact ⟨n, by omega, hname.symm⟩
    · obtain ⟨k, hk, hname⟩ := ih h
      exact ⟨k, by omega, hname⟩

theorem lineage_ladder {k n : Nat} (h : k < n) : ∃ es, Records.Lineage (ladder n) (rung (k + 1)) es ∧
    es.length = k + 1 ∧ ∀ e ∈ es, ∃ bytes, e.2.publicBytes = .ok bytes := by
  have hplain (group : String) : ∃ bytes, (Record.plain group).publicBytes = .ok bytes := ⟨[], rfl⟩
  induction k with
  | zero => exact ⟨_, .root (find?_ladder h) rfl, rfl, by simpa using hplain _⟩
  | succ k ih =>
    obtain ⟨es, hl, hlen, hes⟩ := ih (by omega)
    have hne : rung (k + 1) ≠ "" := fun heq => absurd (rung_inj (n := 0) heq) (by omega)
    exact ⟨_, .child (find?_ladder h) hne hl, by rw [List.length_cons, hlen],
      List.forall_mem_cons.2 ⟨hplain _, hes⟩⟩

theorem resolves_ladder {n : Nat} (h : n ≤ maxDepth) : (ladder n).Resolves := by
  intro name hc
  obtain ⟨r, hf⟩ := NameMap.contains_eq_true.1 hc
  obtain ⟨k, hk, rfl⟩ := of_find?_ladder hf
  obtain ⟨es, hl, hlen, hes⟩ := lineage_ladder hk
  exact Records.exists_secret hl (by omega) hes

theorem accepts_ladder (n : Nat) :
    (ladder (n + 1)).Accepts (plainSecret (rung (n + 2)) (rung (n + 1))) := by
  constructor
  · refine NameMap.contains_eq_false.2 (Option.eq_none_iff_forall_ne_some.2 fun r hf => ?_)
    obtain ⟨k, hk, hname⟩ := of_find?_ladder hf
    have hrung : n + 2 = k + 1 := rung_inj hname
    omega
  · intro group hg
    obtain rfl : rung (n + 1) = group := Option.some.inj hg
    exact NameMap.contains_eq_true.2 ⟨_, find?_ladder (Nat.lt_succ_self n)⟩

/-- As many records stand one under the other as a chain may have, and all secrets can be listed. One
more is let in below them, and is not given back. -/
theorem deep_secret_not_given_back : ∃ all s' d',
    Store.secrets ⟨plainPath, ladder maxDepth⟩ = .ok all ∧
    insert (plainSecret (rung (maxDepth + 1)) (rung maxDepth))
      (⟨plainPath, ladder maxDepth⟩, diskWith (ladder maxDepth)) = .ok () (s', d') ∧
    ¬ GivesBack s' (plainSecret (rung (maxDepth + 1)) (rung maxDepth)) := by
  obtain ⟨n, hn⟩ : ∃ n, maxDepth = n + 1 := ⟨63, rfl⟩
  rw [hn]
  obtain ⟨all, hall⟩ := (resolves_ladder (n := n + 1) (by omega)).exists_secrets
  have ha := accepts_ladder n
  obtain ⟨d', h, -⟩ := insert_of_accepts (s := ⟨plainPath, ladder (n + 1)⟩) ha
    (holds_diskWith (ladder (n + 1))).2
  refine ⟨all, _, d', hall, h, fun ⟨⟨t, ht, _⟩, _⟩ => ?_⟩
  -- The way from the new record to the root has one record more than a chain may have.
  obtain ⟨es, hl, hlen, -⟩ := lineage_ladder (Nat.lt_succ_self n)
  have hne : rung (n + 1) ≠ "" := fun heq => absurd (rung_inj (n := 0) heq) (by omega)
  have hlong := Records.secret_of_long (Records.lineage_of_group ha.1 hne hl)
    (by rw [List.length_cons, hlen]; omega)
  cases hlong.symm.trans ht

end VaultAgent.Store
