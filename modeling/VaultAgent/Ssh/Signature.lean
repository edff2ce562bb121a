import VaultAgent.Ssh.PublicKey

/-!
# Signatures

A signature is the name of its algorithm and bytes whose form the algorithm prescribes.
`Signature.ofBytes` is the only way to label bytes, and it refuses those of a wrong form.
-/

namespace VaultAgent.Ssh

structure Signature where
  algorithm : Algorithm
  bytes : List UInt8
  deriving DecidableEq, Repr

namespace Signature

def dsaLength : Nat := 40

def ed25519Length : Nat := 64

/-- The flags and the counter that a security token puts behind a signature. -/
def tokenLength : Nat := 5

/-- The bytes of an integer that is not negative, less the zero that keeps its sign. -/
def positive? : List UInt8 → Option (List UInt8)
  | [] => none
  | b :: rest => if b = 0 then some rest else if b < 0x80 then some (b :: rest) else none

/-- Half an ECDSA signature: a positive integer that fits the field. -/
def component (curve : Curve) : Decoder Unit := do
  match positive? (← Decoder.integer) with
  | none => throw .crypto
  | some bytes => if bytes.length > curve.fieldSize then throw .length

/-- Two components and then `surplus` bytes. -/
def ecdsaForm (curve : Curve) (surplus : Nat) : Decoder Unit := do
  component curve
  component curve
  if (← Decoder.remaining) ≠ surplus then throw .length

/-- Refuses bytes that cannot be a signature of this algorithm. -/
def checkForm (bytes : List UInt8) : Algorithm → Except WireError Unit
  | .dsa => if bytes.length = dsaLength then .ok () else .error .length
  | .ecdsa curve => (ecdsaForm curve 0).run (.plain bytes)
  | .ed25519 => if bytes.length = ed25519Length then .ok () else .error .length
  | .rsa hash => if hash.isSome then .ok () else .error .length
  | .skEcdsa => (ecdsaForm .p256 tokenLength).run (.plain bytes)
  | .skEd25519 =>
    if bytes.length = ed25519Length + tokenLength then .ok () else .error .length
  | .other _ => if bytes = [] then .error .length else .ok ()

/-- Labels bytes with an algorithm. -/
def ofBytes (algorithm : Algorithm) (bytes : List UInt8) : Except WireError Signature := do
  checkForm bytes algorithm
  return ⟨algorithm, bytes⟩

theorem ofBytes_eq_ok {algorithm : Algorithm} {bytes : List UInt8} {s : Signature} :
    ofBytes algorithm bytes = .ok s ↔
      checkForm bytes algorithm = .ok () ∧ s = ⟨algorithm, bytes⟩ := by
  unfold ofBytes
  cases h : checkForm bytes algorithm <;>
    simp [bind, Except.bind, pure, Except.pure, eq_comm]

/-- Behind an Ed25519 signature of a security token, what the token adds is not counted in the
length. -/
def toBytes (s : Signature) : List UInt8 :=
  textBlock s.algorithm.name ++
    match s.algorithm with
    | .skEd25519 =>
      let n := s.bytes.length - tokenLength
      block (s.bytes.take n) ++ s.bytes.drop n
    | _ => block s.bytes

end Signature

namespace Decoder

def signature : Decoder Signature := do
  let algorithm ← algorithm
  let bytes ← block
  match algorithm with
  | .skEcdsa | .skEd25519 =>
    ofExcept (Signature.ofBytes algorithm (bytes ++ (← take Signature.tokenLength)))
  | _ => ofExcept (Signature.ofBytes algorithm bytes)

end Decoder

end VaultAgent.Ssh
