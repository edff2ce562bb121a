import VaultAgent.Proofs.Protocol.Session
import VaultAgent.Proofs.Signer
import Mathlib.Data.List.Basic
import Mathlib.Data.List.Induction

/-!
# What is signed

A session calls the vault once for each request to sign whose key has an entry that may sign, and for
no other request (`respondAll_signs`). Which entry that is, is told from the keyring that the session
began with: it is the live one of the key, wherever it stands, unless a request in between has taken
it away.
-/

namespace VaultAgent

open VaultAgent.Action
open Ssh (PublicKey Signature)
open Protocol (Request Response Session Spared)

variable {now : Nat} {vault : Vault} {key : PublicKey} {data : List UInt8} {flags : Nat}
  {calls : List VaultCall} {e : Entry}

/-! ## Who signs -/

namespace Keyring

variable {k : Keyring}

/-- The live entry of a key, if the keyring is whole. -/
def served? (k : Keyring) (now : Nat) (key : PublicKey) : Option Entry :=
  if k.poisoned then none
  else ((k.liveSlots now).find? (·.entry.key = key)).map (·.entry)

/-- The entry that signs with a key under these flags. -/
def signer? (k : Keyring) (now : Nat) (key : PublicKey) (flags : Nat) : Option Entry :=
  (k.served? now key).filter fun e => !e.confirm && decide (Signer.Permitted key flags)

theorem signer?_eq_some : k.signer? now key flags = some e ↔
    k.served? now key = some e ∧ e.confirm = false ∧ Signer.Permitted key flags := by
  rw [signer?, Option.filter_eq_some_iff]
  simp

namespace Indexed

theorem served?_eq_some (h : k.Indexed) : k.served? now key = some e ↔ k.poisoned = false ∧
    ∃ name slot, k.slots.find? name = some slot ∧ slot.isLive now = true ∧ slot.entry.key = key ∧
      slot.entry = e := by
  unfold served?
  cases k.poisoned with
  | true => simp
  | false =>
    simp only [Bool.false_eq_true, if_false, Option.map_eq_some_iff, true_and]
    constructor
    · rintro ⟨slot, hfind, he⟩
      obtain ⟨name, hf, hl⟩ := mem_liveSlots.1 (List.mem_of_find?_eq_some hfind)
      have hkey := List.find?_some hfind
      exact ⟨name, slot, hf, hl, of_decide_eq_true hkey, he⟩
    · rintro ⟨name, slot, hf, hl, hkey, he⟩
      have hmem : slot ∈ k.liveSlots now := mem_liveSlots.2 ⟨name, hf, hl⟩
      cases hfind : (k.liveSlots now).find? (·.entry.key = key) with
      | none => exact absurd (decide_eq_true hkey) (List.find?_eq_none.1 hfind slot hmem)
      | some slot' =>
        -- Both slots stand where the fingerprint of the key says.
        obtain ⟨name', hf', -⟩ := mem_liveSlots.1 (List.mem_of_find?_eq_some hfind)
        have hkey' := List.find?_some hfind
        have hname : name' = name := by
          rw [h name' slot' hf', h name slot hf, hkey, of_decide_eq_true hkey']
        rw [hname, hf] at hf'
        exact ⟨slot', rfl, Option.some.inj hf' ▸ he⟩

theorem served?_eq_find? (h : k.Indexed) (hw : k.poisoned = false) :
    k.served? now key = k.find? now key := by
  ext e
  rw [h.served?_eq_some, find?_eq_some]
  constructor
  · rintro ⟨-, name, ⟨_, expiresAt⟩, hf, hl, rfl, rfl⟩
    exact ⟨expiresAt, h name _ hf ▸ hf, hl, rfl⟩
  · rintro ⟨expiresAt, hf, hl, hkey⟩
    exact ⟨hw, _, _, hf, hl, hkey, rfl⟩

theorem sign_of_signer? (h : k.Indexed) (vault : Vault) (data : List UInt8)
    (calls : List VaultCall) (hs : k.signer? now key flags = some e) :
    e.signer.key = key ∧ Signer.Permitted key flags ∧
      k.sign now vault key data flags calls = e.signer.sign vault data flags calls := by
  obtain ⟨hserved, hc, hp⟩ := signer?_eq_some.1 hs
  obtain ⟨hw, name, slot, -, -, hkey, rfl⟩ := h.served?_eq_some.1 hserved
  rw [h.served?_eq_find? hw] at hserved
  exact ⟨hkey, hp, sign_of_live _ _ _ _ hw hserved hc⟩

theorem sign_of_no_signer? (h : k.Indexed) (vault : Vault) (data : List UInt8)
    (calls : List VaultCall) (hs : k.signer? now key flags = none) :
    ∃ fault, k.sign now vault key data flags calls = .error fault calls := by
  cases hw : k.poisoned with
  | true => exact ⟨_, sign_of_poisoned _ _ _ _ hw⟩
  | false =>
    have hserved : k.served? now key = k.find? now key := h.served?_eq_find? hw
    cases hf : k.find? now key with
    | none => exact ⟨_, sign_of_absent _ _ _ _ hw hf⟩
    | some e =>
      cases hc : e.confirm with
      | true => exact ⟨_, sign_of_confirm _ _ _ _ hw hf hc⟩
      | false =>
        obtain ⟨_, -, -, hkey⟩ := find?_eq_some.1 hf
        have hp : ¬ Signer.Permitted e.signer.key flags := fun hp => by
          rw [signer?_eq_some.2 ⟨hserved.trans hf, hc, hkey ▸ hp⟩] at hs
          cases hs
        exact ⟨_, (sign_of_live _ _ _ _ hw hf hc).trans (Signer.sign_of_not_permitted hp)⟩

end Indexed

end Keyring

/-! ## One request -/

namespace Protocol.Session

variable {clock : Nat → Nat} {requests : List Request} {s : Session} {r : Request}

theorem respond_sign_of_signer? (hi : s.keyring.Indexed) (vault : Vault) (data : List UInt8)
    (h : s.keyring.signer? now key flags = some e) : ∃ answer,
      s.respond now vault (.sign key data flags) =
        (answer, { s with calls := s.calls ++ [e.signer.call data] }) ∧
      (∀ signature, answer = .signature signature ↔
        e.signer.Gives vault s.calls data (Signer.label key flags) signature) ∧
      ((∀ signature, answer ≠ .signature signature) → answer = .failure) := by
  obtain ⟨hkey, hp, hsign⟩ := hi.sign_of_signer? vault data s.calls h
  subst hkey
  have hafter : (e.signer.sign vault data flags).after s.calls =
      s.calls ++ [e.signer.call data] := by
    rw [Signer.after_sign, if_pos hp]
  have hgives (signature : Signature) :
      (e.signer.sign vault data flags).outcome s.calls = .ok signature ↔
        e.signer.Gives vault s.calls data (Signer.label e.signer.key flags) signature := by
    rw [Signer.outcome_sign_eq_ok]
    exact and_iff_right hp
  rw [respond, hsign]
  cases hrun : e.signer.sign vault data flags s.calls with
  | ok signature calls =>
    rw [after_of_ok hrun] at hafter
    simp only [outcome_of_ok hrun, Except.ok.injEq] at hgives
    refine ⟨.signature signature, by rw [hafter], fun other => ?_, fun h => absurd rfl (h _)⟩
    rw [Response.signature.injEq, hgives]
  | error fault calls =>
    rw [after_of_error hrun] at hafter
    simp only [outcome_of_error hrun, reduceCtorEq, false_iff] at hgives
    refine ⟨.failure, by rw [hafter], fun other => ?_, fun _ => rfl⟩
    exact iff_of_false (by simp) (hgives other)

theorem respond_sign_of_no_signer? (hi : s.keyring.Indexed)
    (h : s.keyring.signer? now key flags = none) :
    s.respond now vault (.sign key data flags) = (.failure, s) := by
  obtain ⟨fault, hsign⟩ := hi.sign_of_no_signer? vault data s.calls h
  rw [respond, hsign]

/-- No other request contacts the vault or gives a signature. -/
theorem respond_of_no_sign (now : Nat) (vault : Vault) (s : Session)
    (h : ∀ key data flags, r ≠ .sign key data flags) : (s.respond now vault r).2.calls = s.calls ∧
      ∀ signature, (s.respond now vault r).1 ≠ .signature signature := by
  have hchange {α : Type} (a : Keyring.KeyringAction α) :
      (s.change a).2.calls = s.calls ∧ ∀ signature, (s.change a).1 ≠ .signature signature := by
    unfold change
    cases a s.keyring <;> simp
  cases r with
  | identities =>
    rw [respond]
    cases s.keyring.identities now <;> simp
  | sign key data flags => exact absurd rfl (h key data flags)
  | remove key => exact hchange _
  | removeAll => exact hchange _
  | _ => simp [respond]

/-! ## The keyring that requests leave -/

theorem keyring_respond_of_poisoned (hp : s.keyring.poisoned = true) :
    (s.respond now vault r).2.keyring = s.keyring := by
  have hchange {α : Type} (a : Keyring.KeyringAction α)
      (ha : a s.keyring = .error .poisoned s.keyring) : (s.change a).2.keyring = s.keyring := by
    rw [change, ha]
  cases r with
  | identities =>
    rw [respond]
    cases s.keyring.identities now <;> rfl
  | sign key data flags =>
    rw [respond]
    cases s.keyring.sign now vault key data flags s.calls <;> rfl
  | remove key =>
    refine hchange _ ?_
    rw [Keyring.remove, get_bind, Keyring.checkWhole, if_pos hp]
    rfl
  | removeAll =>
    refine hchange _ ?_
    rw [Keyring.removeAll, get_bind, Keyring.checkWhole, if_pos hp]
    rfl
  | _ => rfl

theorem keyring_respondAll_of_poisoned (clock : Nat → Nat) (requests : List Request)
    (hp : s.keyring.poisoned = true) :
    (s.respondAll vault clock requests).2.keyring = s.keyring := by
  induction requests using List.reverseRecOn with
  | nil => rfl
  | append_singleton requests r ih =>
    rw [respondAll_concat, keyring_respond_of_poisoned (ih ▸ hp), ih]

theorem indexed_respondAll (hi : s.keyring.Indexed) (clock : Nat → Nat) (vault : Vault)
    (requests : List Request) : (s.respondAll vault clock requests).2.keyring.Indexed := by
  cases hw : s.keyring.poisoned with
  | true => rwa [keyring_respondAll_of_poisoned clock requests hw]
  | false => exact (keeps_respondAll clock vault hi hw requests).indexed hi

/-- A key that is spared has the entry that it had, and one that is not has none. -/
theorem served?_respondAll (hi : s.keyring.Indexed) (clock : Nat → Nat) (vault : Vault)
    (requests : List Request) (now : Nat) (key : PublicKey) :
    (s.respondAll vault clock requests).2.keyring.served? now key =
      if Spared requests key then s.keyring.served? now key else none := by
  cases hw : s.keyring.poisoned with
  | true =>
    rw [keyring_respondAll_of_poisoned clock requests hw, Keyring.served?, if_pos hw, ite_self]
  | false =>
    have hk := keeps_respondAll clock vault hi hw requests
    ext e
    rw [(hk.indexed hi).served?_eq_some, hk.poisoned]
    simp only [hk.slots, hw, true_and]
    constructor
    · rintro ⟨name, slot, ⟨hf, hspared⟩, hl, rfl, he⟩
      rw [if_pos hspared, hi.served?_eq_some]
      exact ⟨hw, name, slot, hf, hl, rfl, he⟩
    · intro h
      split at h
      · rename_i hspared
        obtain ⟨-, name, slot, hf, hl, rfl, he⟩ := hi.served?_eq_some.1 h
        exact ⟨name, slot, ⟨hf, hspared⟩, hl, rfl, he⟩
      · cases h

end Protocol.Session

/-! ## What is due -/

namespace Keyring

variable {k : Keyring} {clock : Nat → Nat} {requests : List Request}

/-- The entry that signs with a key after requests that may have taken it away. -/
def signerAfter? (k : Keyring) (now : Nat) (earlier : List Request) (key : PublicKey)
    (flags : Nat) : Option Entry :=
  if Spared earlier key then k.signer? now key flags else none

/-- The call that a request makes after these. -/
def callAfter? (k : Keyring) (now : Nat) (earlier : List Request) : Request → Option VaultCall
  | .sign key data flags => (k.signerAfter? now earlier key flags).map (·.signer.call data)
  | _ => none

/-- The calls that requests make, each at its time. -/
def dueCalls (k : Keyring) (clock : Nat → Nat) (requests : List Request) : List VaultCall :=
  requests.zipIdx.filterMap fun p => k.callAfter? (clock p.2) (requests.take p.2) p.1

theorem dueCalls_concat (k : Keyring) (clock : Nat → Nat) (requests : List Request) (r : Request) :
    k.dueCalls clock (requests ++ [r]) = k.dueCalls clock requests ++
      (k.callAfter? (clock requests.length) requests r).toList := by
  have hearlier : ∀ p ∈ requests.zipIdx, (requests ++ [r]).take p.2 = requests.take p.2 := by
    intro p hp
    have hlt : p.2 < requests.length := List.snd_lt_of_mem_zipIdx hp
    exact List.take_append_of_le_length (Nat.le_of_lt hlt)
  unfold dueCalls
  rw [List.zipIdx_append, List.filterMap_append]
  congr 1
  · exact List.filterMap_congr fun p hp => by rw [hearlier p hp]
  · have hall : (requests ++ [r]).take requests.length = requests := List.take_left
    rw [Nat.zero_add, List.zipIdx_singleton, List.filterMap_cons]
    simp only [hall]
    cases k.callAfter? (clock requests.length) requests r <;> rfl

end Keyring

namespace Protocol.Session

variable {clock : Nat → Nat} {requests : List Request} {s : Session}

theorem signer?_respondAll (hi : s.keyring.Indexed) (clock : Nat → Nat) (vault : Vault)
    (requests : List Request) (now : Nat) (key : PublicKey) (flags : Nat) :
    (s.respondAll vault clock requests).2.keyring.signer? now key flags =
      s.keyring.signerAfter? now requests key flags := by
  rw [Keyring.signer?, served?_respondAll hi, Keyring.signerAfter?]
  split
  · rfl
  · rfl

theorem calls_respond (hi : s.keyring.Indexed) (now : Nat) (vault : Vault) (r : Request) :
    (s.respond now vault r).2.calls = s.calls ++ (s.keyring.callAfter? now [] r).toList := by
  cases r with
  | sign key data flags =>
    rw [Keyring.callAfter?, Keyring.signerAfter?, if_pos spared_nil]
    cases h : s.keyring.signer? now key flags with
    | none =>
      rw [respond_sign_of_no_signer? hi h]
      exact (List.append_nil _).symm
    | some e =>
      obtain ⟨answer, hr, -, -⟩ := respond_sign_of_signer? hi vault data h
      rw [hr]
      rfl
  | _ => exact (respond_of_no_sign now vault s (by simp)).1.trans (List.append_nil _).symm

theorem calls_respondAll (hi : s.keyring.Indexed) (clock : Nat → Nat) (vault : Vault)
    (requests : List Request) : (s.respondAll vault clock requests).2.calls =
      s.calls ++ s.keyring.dueCalls clock requests := by
  induction requests using List.reverseRecOn with
  | nil => exact (List.append_nil _).symm
  | append_singleton requests r ih =>
    have hcall : (s.respondAll vault clock requests).2.keyring.callAfter? (clock requests.length)
        [] r = s.keyring.callAfter? (clock requests.length) requests r := by
      cases r with
      | sign key data flags =>
        rw [Keyring.callAfter?, Keyring.callAfter?, Keyring.signerAfter?, if_pos spared_nil,
          signer?_respondAll hi]
      | _ => rfl
    have hindexed := indexed_respondAll hi clock vault requests
    rw [respondAll_concat, calls_respond hindexed, ih, hcall, Keyring.dueCalls_concat, List.append_assoc]

/-- A request is answered with a signature if it has a signer that gives one, and a request to sign
is answered with a failure if not. -/
theorem respond_signs (hi : s.keyring.Indexed) (now : Nat) (vault : Vault) (r : Request) :
    (∀ signature, (s.respond now vault r).1 = .signature signature ↔ ∃ key data flags e,
      r = .sign key data flags ∧ s.keyring.signer? now key flags = some e ∧
        e.signer.Gives vault s.calls data (Signer.label key flags) signature) ∧
    ∀ key data flags, r = .sign key data flags →
      (∀ signature, (s.respond now vault r).1 ≠ .signature signature) →
        (s.respond now vault r).1 = .failure := by
  by_cases hr : ∃ key data flags, r = .sign key data flags
  · obtain ⟨key, data, flags, rfl⟩ := hr
    cases h : s.keyring.signer? now key flags with
    | none =>
      rw [respond_sign_of_no_signer? hi h]
      refine ⟨fun signature => iff_of_false (by simp) ?_, fun _ _ _ _ _ => rfl⟩
      rintro ⟨key', data', flags', e, heq, he, -⟩
      cases heq
      cases h.symm.trans he
    | some e =>
      obtain ⟨answer, hrun, hgives, hfail⟩ := respond_sign_of_signer? hi vault data h
      rw [hrun]
      refine ⟨fun signature => (hgives signature).trans ?_, fun _ _ _ _ => hfail⟩
      constructor
      · exact fun hg => ⟨key, data, flags, e, rfl, h, hg⟩
      · rintro ⟨key', data', flags', e', heq, he, hg⟩
        cases heq
        cases h.symm.trans he
        exact hg
  · have hno := respond_of_no_sign now vault s
      fun key data flags heq => hr ⟨key, data, flags, heq⟩
    refine ⟨fun signature => iff_of_false (hno.2 signature) ?_, fun key data flags heq => ?_⟩
    · rintro ⟨key, data, flags, _, heq, -⟩
      exact hr ⟨key, data, flags, heq⟩
    · exact absurd ⟨key, data, flags, heq⟩ hr

/-- The vault is called once for each request that a signer is there for, and for no other. Such a
request is answered with what the vault gives under the one label for it, and else with a failure. -/
theorem respondAll_signs (hi : s.keyring.Indexed) (vault : Vault) (clock : Nat → Nat)
    (requests : List Request) :
    (s.respondAll vault clock requests).2.calls = s.calls ++ s.keyring.dueCalls clock requests ∧
    ∀ (i : Nat) r, requests[i]? = some r → ∃ answer,
      (s.respondAll vault clock requests).1[i]? = some answer ∧
      (∀ signature, answer = .signature signature ↔ ∃ key data flags e,
        r = .sign key data flags ∧
        s.keyring.signerAfter? (clock i) (requests.take i) key flags = some e ∧
        e.signer.Gives vault (s.calls ++ s.keyring.dueCalls clock (requests.take i)) data
          (Signer.label key flags) signature) ∧
      (∀ key data flags, r = .sign key data flags →
        (∀ signature, answer ≠ .signature signature) → answer = .failure) ∧
      ∀ signature, answer = .signature signature → signature.algorithm ≠ .rsa none := by
  refine ⟨calls_respondAll hi clock vault requests, fun i r hr => ⟨_, answer_at hr, ?_⟩⟩
  have hcalls := calls_respondAll hi clock vault (requests.take i)
  have hsigner := signer?_respondAll hi clock vault (requests.take i) (clock i)
  obtain ⟨hsigned, hfailed⟩ :=
    respond_signs (indexed_respondAll hi clock vault (requests.take i)) (clock i) vault r
  simp only [hcalls, hsigner] at hsigned
  refine ⟨hsigned, hfailed, fun signature hs => ?_⟩
  obtain ⟨key, data, flags, e, -, -, hg⟩ := (hsigned signature).1 hs
  exact hg.labelled ▸ Signer.label_ne_sha1 key flags

def rsaEntry : Entry where
  signer := ⟨.rsa [1, 0, 1] [0x7f], "deploy", "ci", .ofSeconds 30⟩
  comment := "deploy"
  lifetime := none
  confirm := false

/-- A client asks for a signature over SHA-1 and for one over SHA-256, and for another when it has
taken the key away. -/
def signsThrice : List Request :=
  [.sign rsaEntry.key [7] 0, .sign rsaEntry.key [7] 2, .remove rsaEntry.key,
    .sign rsaEntry.key [7] 4]

theorem respondAll_signs_of_rsa : (Keyring.empty.withEntry rsaEntry).Indexed ∧ ∃ answers s,
    respondAll (.signing [9]) (fun _ => 0) signsThrice ⟨Keyring.empty.withEntry rsaEntry, []⟩ =
      (answers, s) ∧ s.calls = [.sign "deploy" "ci" [7]] ∧ answers[0]? = some .failure ∧
      answers[1]? = some (.signature ⟨.rsa (some .sha256), [9]⟩) ∧ answers[3]? = some .failure := by
  have hi : (Keyring.empty.withEntry rsaEntry).Indexed :=
    (Keyring.Steady.empty.withEntry _).isIndexed
  have hdue : (Keyring.empty.withEntry rsaEntry).dueCalls (fun _ => 0) signsThrice =
      [.sign "deploy" "ci" [7]] := by decide +kernel
  have hsigners : (Keyring.empty.withEntry rsaEntry).signerAfter? 0 [] rsaEntry.key 0 = none ∧
      (Keyring.empty.withEntry rsaEntry).signerAfter? 0 (signsThrice.take 1) rsaEntry.key 2 =
        some rsaEntry ∧
      (Keyring.empty.withEntry rsaEntry).signerAfter? 0 (signsThrice.take 3) rsaEntry.key 4 =
        none := by decide +kernel
  obtain ⟨hcalls, hanswers⟩ := respondAll_signs (s := ⟨Keyring.empty.withEntry rsaEntry, []⟩) hi
    (.signing [9]) (fun _ => 0) signsThrice
  simp only [hdue, List.nil_append] at hcalls
  generalize hrun : respondAll _ _ _ _ = p at hcalls hanswers ⊢
  obtain ⟨answers, s⟩ := p
  obtain ⟨first, h0, hs0, hf0, -⟩ := hanswers 0 (.sign rsaEntry.key [7] 0) rfl
  obtain ⟨second, h1, hs1, -, -⟩ := hanswers 1 (.sign rsaEntry.key [7] 2) rfl
  obtain ⟨fourth, h3, hs3, hf3, -⟩ := hanswers 3 (.sign rsaEntry.key [7] 4) rfl
  have hfirst : first = .failure := hf0 _ _ _ rfl fun signature h => by
    obtain ⟨_, _, _, e, heq, he, -⟩ := (hs0 signature).1 h
    cases heq
    cases hsigners.1.symm.trans he
  have hsecond : second = .signature ⟨.rsa (some .sha256), [9]⟩ :=
    (hs1 _).2 ⟨_, _, _, rsaEntry, rfl, hsigners.2.1, by decide, rfl, rfl, rfl⟩
  have hfourth : fourth = .failure := hf3 _ _ _ rfl fun signature h => by
    obtain ⟨_, _, _, e, heq, he, -⟩ := (hs3 signature).1 h
    cases heq
    cases hsigners.2.2.symm.trans he
  subst hfirst hsecond hfourth
  exact ⟨hi, answers, s, rfl, hcalls, h0, h1, h3⟩

end Protocol.Session

end VaultAgent
