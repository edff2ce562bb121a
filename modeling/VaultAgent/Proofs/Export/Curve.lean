import VaultAgent.Proofs.Export

/-!
# Keys that are declared to be on P-256

Four names of types say that a key is on P-256. Whatever they say, a point of any curve is taken over
under them, as a key of its own curve: a key keeps to its type only if its bytes are no point of the other
curves (`keepsToP256_iff`).
-/

namespace VaultAgent.Export

open Ssh (Curve HasForm PublicKey)

variable {secretType : String} {raw : List UInt8} {key : PublicKey}

/-- The names of types whose keys are on P-256. -/
def p256Types : List String :=
  ["ecdsa-p256", "ecdsa_p256", "p256", "ecdsa-sha2-nistp256"]

/-- The bytes are taken over as a key on P-256 if they are written like one, and refused otherwise. -/
structure KeepsToP256 (secretType : String) (raw : List UInt8) : Prop where
  takes : ∀ key, publicKey secretType raw = .ok key →
    key.algorithm = .ecdsa .p256 ∧ HasForm .p256 raw
  refuses : ¬ HasForm .p256 raw → ∃ fault, publicKey secretType raw = .error (.invalidPoint fault)

theorem publicKey_eq_ok_iff (h : lower secretType ∈ ecdsaTypes) :
    publicKey secretType raw = .ok key ↔ ∃ curve, HasForm curve raw ∧ key = .ecdsa curve raw := by
  rw [publicKey, if_pos h, Action.mapError_eq_ok, PublicKey.ofPoint, Action.except_bind_eq_ok]
  refine exists_congr fun curve => and_congr Ssh.curveOfPoint_eq_ok ?_
  exact ⟨fun h => (Except.ok.inj h).symm, fun h => congrArg Except.ok h.symm⟩

theorem publicKey_of_no_form (h : lower secretType ∈ ecdsaTypes)
    (hno : ∀ curve, ¬ HasForm curve raw) :
    ∃ fault, publicKey secretType raw = .error (.invalidPoint fault) := by
  rw [publicKey, if_pos h, PublicKey.ofPoint]
  cases hc : Ssh.curveOfPoint raw with
  | error fault => exact ⟨fault, rfl⟩
  | ok curve => exact absurd (Ssh.curveOfPoint_eq_ok.1 hc) (hno curve)

/-- Under a name of P-256 just the points of all curves are taken over. So a key is on P-256 as its type
says, or is refused, if and only if the bytes are not written like a point of another curve. -/
theorem keepsToP256_iff (h : lower secretType ∈ p256Types) :
    (KeepsToP256 secretType raw ↔ ¬ HasForm .p384 raw ∧ ¬ HasForm .p521 raw) ∧
    (∀ key, publicKey secretType raw = .ok key ↔
      ∃ curve, HasForm curve raw ∧ key = .ecdsa curve raw) ∧
    ((∀ curve, ¬ HasForm curve raw) →
      ∃ fault, publicKey secretType raw = .error (.invalidPoint fault)) := by
  have hecdsa : lower secretType ∈ ecdsaTypes := List.mem_cons_of_mem "ecdsa" h
  refine ⟨⟨fun hkeeps => ?_, fun ⟨h384, h521⟩ => ⟨fun key hkey => ?_, fun hno => ?_⟩⟩,
    fun key => publicKey_eq_ok_iff hecdsa, publicKey_of_no_form hecdsa⟩
  · have hp256 {curve : Curve} (hform : HasForm curve raw) : curve = .p256 := by
      obtain ⟨-, hp256⟩ := hkeeps.takes _ ((publicKey_eq_ok_iff hecdsa).2 ⟨curve, hform, rfl⟩)
      exact hform.unique hp256
    exact ⟨fun h384 => absurd (hp256 h384) (by decide), fun h521 => absurd (hp256 h521) (by decide)⟩
  · obtain ⟨curve, hform, rfl⟩ := (publicKey_eq_ok_iff hecdsa).1 hkey
    cases curve with
    | p256 => exact ⟨rfl, hform⟩
    | p384 => exact absurd hform h384
    | p521 => exact absurd hform h521
  · refine publicKey_of_no_form hecdsa fun curve => ?_
    cases curve with
    | p256 => exact hno
    | p384 => exact h384
    | p521 => exact h521

/-- A compressed point under a name in capitals is on P-256, and half of one is refused. -/
theorem keepsToP256_of_compressed :
    lower "ECDSA-P256" ∈ p256Types ∧ KeepsToP256 "ECDSA-P256" (2 :: List.replicate 32 1) ∧
      KeepsToP256 "ECDSA-P256" (2 :: List.replicate 16 1) := by
  have h : lower "ECDSA-P256" ∈ p256Types := by decide
  have hno {n : Nat} {curve : Curve} (h : n ≠ curve.fieldSize) :
      ¬ HasForm curve (2 :: List.replicate n 1) := by
    rintro ⟨tag, rest, heq, hform⟩
    obtain ⟨rfl, rfl⟩ := List.cons.inj heq
    simp [h] at hform
  exact ⟨h, (keepsToP256_iff h).1.2 ⟨hno (by decide), hno (by decide)⟩,
    (keepsToP256_iff h).1.2 ⟨hno (by decide), hno (by decide)⟩⟩

/-- A point on P-384 is taken over under a name of P-256. -/
theorem p384_under_name_of_p256 : lower "p256" ∈ p256Types ∧
    publicKey "p256" (4 :: List.replicate 96 1) = .ok (.ecdsa .p384 (4 :: List.replicate 96 1)) ∧
      ¬ KeepsToP256 "p256" (4 :: List.replicate 96 1) := by
  have hkey : publicKey "p256" (4 :: List.replicate 96 1) =
      .ok (.ecdsa .p384 (4 :: List.replicate 96 1)) := by decide
  exact ⟨by decide, hkey, fun h => absurd (h.takes _ hkey).1 (by decide)⟩

end VaultAgent.Export
