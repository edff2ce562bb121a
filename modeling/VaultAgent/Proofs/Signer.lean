import VaultAgent.Proofs.Action
import VaultAgent.Signer
import Mathlib.Data.Nat.Bitwise

/-!
# What a signer asks for and gives out

A signer calls its vault once if the flags are `Permitted` for its key, and else not at all
(`after_sign`). It gives out what the vault answers in time, under the one label of the key and the
flags and only in the form of that label (`outcome_sign_eq_ok`).
-/

namespace VaultAgent

open VaultAgent.Action
open Ssh (PublicKey Signature)

/-- A vault that gives every challenge these bytes as its signature, and exports nothing. -/
def Vault.signing (bytes : List UInt8) : Vault where
  exportKey _ _ := ⟨.ofSeconds 0, .error (.denied "")⟩
  sign _ _ _ _ := ⟨.ofSeconds 0, .ok bytes⟩

theorem Answer.within_eq_ok {α : Type} {a : Answer α} {limit : Duration} {x : α} :
    a.within limit = .ok x ↔ a.delay.nanoseconds ≤ limit.nanoseconds ∧ a.result = .ok x := by
  unfold Answer.within
  by_cases h : a.delay.nanoseconds > limit.nanoseconds
  · simp [h, Nat.not_le.2 h]
  · simp [h, Nat.not_lt.1 h]

namespace Signer

variable {vault : Vault} {s : Signer} {key : PublicKey} {data : List UInt8} {flags : Nat}
  {before after : List VaultCall} {signature : Signature} {e : KeyringError}

/-- For an RSA key the flags have to ask for a digest. -/
def Permitted (key : PublicKey) (flags : Nat) : Prop :=
  key.algorithm = .rsa none → flags &&& 0x02 ≠ 0 ∨ flags &&& 0x04 ≠ 0

instance (key : PublicKey) (flags : Nat) : Decidable (Permitted key flags) :=
  inferInstanceAs (Decidable (_ → _))

/-- What a signature by the key is labelled with. -/
def label (key : PublicKey) (flags : Nat) : Ssh.Algorithm :=
  match key.algorithm with
  | .rsa _ => .rsa (some (if flags &&& 0x04 ≠ 0 then .sha512 else .sha256))
  | own => own

theorem testBit_iff (i : Nat) : flags.testBit i = true ↔ flags &&& 2 ^ i ≠ 0 := by
  rw [Nat.and_two_pow]
  cases flags.testBit i <;> simp

theorem algorithm_eq (key : PublicKey) (flags : Nat) : algorithm key flags =
    if Permitted key flags then .ok (label key flags) else .error .unsupportedAlgorithm := by
  unfold algorithm label Permitted
  simp only [testBit_iff, sha512Bit, sha256Bit, Nat.reducePow]
  cases key with
  | rsa exponent modulus =>
    simp only [PublicKey.algorithm, true_imp_iff]
    by_cases h4 : flags &&& 0x04 ≠ 0
    · simp [h4]
    · by_cases h2 : flags &&& 0x02 ≠ 0 <;> simp [h2, h4]
  | _ => simp [PublicKey.algorithm]

/-- No signature is labelled as one over SHA-1. -/
theorem label_ne_sha1 (key : PublicKey) (flags : Nat) : label key flags ≠ .rsa none := by
  unfold label
  cases key <;> simp [PublicKey.algorithm]

/-- The call that asks for a signature. -/
def call (s : Signer) (data : List UInt8) : VaultCall :=
  .sign s.secretName s.group data

/-- What the vault answers to the call. -/
def answer (vault : Vault) (s : Signer) (before : List VaultCall) (data : List UInt8) :
    Answer (List UInt8) :=
  vault.sign before s.secretName s.group data

/-- The signature is what the vault answers in time, in the form that its label prescribes. -/
structure Gives (s : Signer) (vault : Vault) (before : List VaultCall) (data : List UInt8)
    (label : Ssh.Algorithm) (signature : Signature) : Prop where
  inTime : (s.answer vault before data).delay.nanoseconds ≤ s.timeout.nanoseconds
  answered : (s.answer vault before data).result = .ok signature.bytes
  formed : Signature.checkForm signature.bytes label = .ok ()
  labelled : signature.algorithm = label

theorem sign_of_not_permitted (h : ¬ Permitted s.key flags) :
    s.sign vault data flags before = .error .unsupportedAlgorithm before := by
  rw [sign, algorithm_eq, if_neg h]
  rfl

theorem sign_of_permitted (h : Permitted s.key flags) :
    s.sign vault data flags before =
      (do let bytes ← Action.ofExcept .delegation ((s.answer vault before data).within s.timeout)
          Action.ofExcept .invalidSignature (Signature.ofBytes (label s.key flags) bytes) :
        Action KeyringError (List VaultCall) Signature) (before ++ [s.call data]) := by
  rw [sign, algorithm_eq, if_pos h]
  rfl

theorem after_sign : (s.sign vault data flags).after before =
    if Permitted s.key flags then before ++ [s.call data] else before := by
  by_cases h : Permitted s.key flags
  · have hasks : (do
        let bytes ← Action.ofExcept .delegation ((s.answer vault before data).within s.timeout)
        Action.ofExcept .invalidSignature (Signature.ofBytes (label s.key flags) bytes) :
          Action KeyringError (List VaultCall) Signature).Asks :=
      .bind (.ofExcept _ _) fun _ => .ofExcept _ _
    rw [if_pos h]
    unfold Action.after
    rw [sign_of_permitted h]
    exact hasks (before ++ [s.call data])
  · rw [if_neg h, after_of_error (sign_of_not_permitted h)]

theorem outcome_sign_eq_ok : (s.sign vault data flags).outcome before = .ok signature ↔
    Permitted s.key flags ∧ s.Gives vault before data (label s.key flags) signature := by
  rw [outcome_eq_ok]
  by_cases h : Permitted s.key flags
  · rw [after_sign, if_pos h, sign_of_permitted h, bind_eq_ok]
    simp only [ofExcept_eq_ok, Answer.within_eq_ok, Signature.ofBytes_eq_ok, h, true_and]
    constructor
    · rintro ⟨bytes, t, ⟨⟨hd, hr⟩, rfl⟩, ⟨hf, rfl⟩, -⟩
      exact ⟨hd, hr, hf, rfl⟩
    · rintro ⟨hd, hr, hf, hl⟩
      exact ⟨signature.bytes, _, ⟨⟨hd, hr⟩, rfl⟩, ⟨hf, by rw [← hl]⟩, rfl⟩
  · rw [sign_of_not_permitted h]
    simp [h]

/-- A signer fails for reasons of its own. -/
theorem ne_of_outcome_sign (h : (s.sign vault data flags).outcome before = .error e) :
    e ≠ .keyNotFound ∧ e ≠ .confirmationUnavailable := by
  rw [outcome_eq_error] at h
  by_cases hp : Permitted s.key flags
  · rw [sign_of_permitted hp] at h
    rcases bind_eq_error.1 h with h | ⟨bytes, t, -, h⟩
    · obtain ⟨_, -, rfl, -⟩ := ofExcept_eq_error.1 h
      exact ⟨nofun, nofun⟩
    · obtain ⟨_, -, rfl, -⟩ := ofExcept_eq_error.1 h
      exact ⟨nofun, nofun⟩
  · rw [sign_of_not_permitted hp] at h
    obtain rfl := (EStateM.Result.error.inj h).1
    exact ⟨nofun, nofun⟩

end Signer

end VaultAgent
