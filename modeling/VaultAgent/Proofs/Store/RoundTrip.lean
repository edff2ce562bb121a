import VaultAgent.Proofs.Store.Acceptance
import VaultAgent.Proofs.Store.Reopening

/-!
# What is stored is given back

A secret that was stored under nothing, or under a parent that resolves, is given back as it was, in the
chain of that parent, if the chain has room for it. All that resolved before resolves to the same secret,
whatever else is wrong with the records. A store that is opened afresh gives the same answers, since it
is the same store (`Reopens`).
-/

namespace VaultAgent.Store

open VaultAgent.Action

namespace Records

variable {m : Records} {name : String} {secret t : Secret} {above : List Member}

/-- The groups that a new secret is to be given back with: none, or its parent, as it is stored, with the
groups of that. -/
inductive Ancestry (m : Records) (secret : Secret) : List Member → Prop
  | root (hg : secret.groupName? = none) : Ancestry m secret []
  | child {group : String} {p : Secret} (hg : secret.groupName? = some group) (hne : group ≠ "")
    (hp : m.secret group = .ok p) (hroom : p.ancestors.length ≤ maxDepth - 2) :
    Ancestry m secret (p.toMember :: p.ancestors)

theorem secret_of_ancestry (hn : m.contains secret.name = false) (ha : Ancestry m secret above) :
    (m.withSecret secret).secret secret.name = .ok ⟨secret.toMember, above⟩ := by
  cases ha with
  | root hg =>
    have hvault : secret.vaultGroup = "" := by rw [Secret.vaultGroup, hg]; rfl
    exact secret_of_no_group hvault
  | @child group p hg hne hp hroom =>
    obtain rfl : secret.vaultGroup = group := by rw [Secret.vaultGroup, hg]; rfl
    have htwo : 2 ≤ maxDepth := by decide
    have hfits : p.ancestors.length + 2 ≤ maxDepth := by omega
    rw [secret_of_group hn hne hp, if_pos hfits]

theorem secret_withSecret (hn : m.contains secret.name = false) (h : m.secret name = .ok t) :
    (m.withSecret secret).secret name = .ok t :=
  secret_congr h fun _ _ _ hf => find?_withSecret_of_find? hn hf

end Records

variable {s s' : Store} {d d' : Disk} {secret : Secret} {above : List Member} {u : Unit}

/-- An insertion that succeeds has stored the secret, to be given back with its own data and with the
groups that are stored. It leaves alone what resolved before. -/
theorem secret_of_insert (ha : Records.Ancestry s.records secret above)
    (h : insert secret (s, d) = .ok u (s', d')) :
    s'.secret secret.name = .ok ⟨secret.toMember, above⟩ ∧
      (∀ name t, s.secret name = .ok t → s'.secret name = .ok t) ∧ Reopens s.path d s' d' := by
  obtain ⟨⟨hn, -⟩, hs, hw⟩ := insert_eq_ok h
  obtain rfl : s' = _ := hs
  refine ⟨Records.secret_of_ancestry hn ha, fun name t ht => ?_, .of_replaceFile rfl hw⟩
  exact Records.secret_withSecret hn ht

/-- A secret under `d`, in the midst of records that do not resolve. -/
theorem secret_of_insert_among_tangled : ∃ s' d',
    Records.Ancestry tangled ⟨⟨"k", "f", "c", "t", [0, 255]⟩, [⟨"d", "", "", "", [1]⟩]⟩
      [⟨"d", "", "", "", []⟩] ∧
    insert ⟨⟨"k", "f", "c", "t", [0, 255]⟩, [⟨"d", "", "", "", [1]⟩]⟩
      (⟨plainPath, tangled⟩, diskWith tangled) = .ok () (s', d') ∧
    s'.secret "k" = .ok ⟨⟨"k", "f", "c", "t", [0, 255]⟩, [⟨"d", "", "", "", []⟩]⟩ ∧
    s'.secret "d" = .ok ⟨⟨"d", "", "", "", []⟩, []⟩ ∧ «open» plainPath d' = .ok s' d' := by
  have hp : tangled.secret "d" = .ok ⟨⟨"d", "", "", "", []⟩, []⟩ := by decide +kernel
  have hanc : Records.Ancestry tangled ⟨⟨"k", "f", "c", "t", [0, 255]⟩, [⟨"d", "", "", "", [1]⟩]⟩
      [⟨"d", "", "", "", []⟩] := .child rfl (by decide) hp (by decide)
  have hacc : tangled.Accepts ⟨⟨"k", "f", "c", "t", [0, 255]⟩, [⟨"d", "", "", "", [1]⟩]⟩ :=
    ⟨by decide, by rintro _ ⟨⟩; decide⟩
  obtain ⟨d', h, -⟩ := insert_of_accepts (s := ⟨plainPath, tangled⟩) hacc (holds_diskWith tangled).2
  obtain ⟨hself, hothers, hr⟩ := secret_of_insert (s := ⟨plainPath, tangled⟩) hanc h
  obtain ⟨bytes, d'', hread⟩ := hr.readable (readsBack_diskWith tangled)
  exact ⟨_, d', hanc, h, hself, hothers "d" _ hp, hr.opens bytes d'' hread⟩

end VaultAgent.Store
