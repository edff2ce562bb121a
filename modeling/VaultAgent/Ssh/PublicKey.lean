import VaultAgent.Digest.Sha2
import VaultAgent.Ssh.Algorithm

/-!
# Public keys

A public key is what an agent knows a key by. It is written as the name of its algorithm and its
numbers; `PublicKey.ofBytes` reads that back and refuses anything left over. The fingerprint is the
SHA-256 digest of the written form.
-/

namespace VaultAgent.Ssh

inductive PublicKey
  | dsa (p q g y : List UInt8)
  /-- A curve point as SEC 1 writes it, with a first byte that says its form. -/
  | ecdsa (curve : Curve) (point : List UInt8)
  | ed25519 (key : List UInt8)
  | rsa (exponent modulus : List UInt8)
  /-- An ECDSA key on P-256 in a security token. -/
  | skEcdsa (point : List UInt8) (application : String)
  /-- An Ed25519 key in a security token. -/
  | skEd25519 (key : List UInt8) (application : String)
  /-- A key of an algorithm that is known by its name only. -/
  | other (algorithm : String) (key : List UInt8)
  deriving DecidableEq, Repr

/-! ## Curve points -/

/-- The length of the SEC 1 form of a point that its first byte announces, the coordinates having
`size` bytes. -/
def pointLength? (size : Nat) (tag : UInt8) : Option Nat :=
  if tag = 0 then some 1
  else if tag = 2 ∨ tag = 3 ∨ tag = 5 then some (size + 1)
  else if tag = 4 then some (2 * size + 1)
  else none

/-- Has the point the length that its first byte announces? -/
def isPoint (size : Nat) : List UInt8 → Bool
  | [] => false
  | tag :: rest => pointLength? size tag = some (rest.length + 1)

/-- Tells the curve from the form and the length of a point. -/
def curveOfPoint (point : List UInt8) : Except WireError Curve :=
  match point with
  | [] => .error .length
  | tag :: rest => do
    if pointLength? 0 tag = none then throw .point
    if tag = 0 ∨ tag = 5 then throw .unknownAlgorithm
    let size := if tag = 4 then rest.length / 2 else rest.length
    match Curve.all.find? (·.fieldSize = size) with
    | none => throw .length
    | some curve => if isPoint size point then return curve else throw .point

namespace PublicKey

def algorithm : PublicKey → Algorithm
  | dsa .. => .dsa
  | ecdsa curve _ => .ecdsa curve
  | ed25519 _ => .ed25519
  | rsa .. => .rsa none
  | skEcdsa .. => .skEcdsa
  | skEd25519 .. => .skEd25519
  | other name _ => .other name

/-- The ECDSA key of a curve point. -/
def ofPoint (point : List UInt8) : Except WireError PublicKey := do
  return ecdsa (← curveOfPoint point) point

/-! ## Writing -/

/-- What follows the name of the algorithm. -/
def body : PublicKey → List UInt8
  | dsa p q g y => block p ++ block q ++ block g ++ block y
  | ecdsa curve point => textBlock curve.name ++ block point
  | ed25519 key => block key
  | rsa exponent modulus => block exponent ++ block modulus
  | skEcdsa point application => textBlock Curve.p256.name ++ block point ++ textBlock application
  | skEd25519 key application => block key ++ textBlock application
  | other _ key => block key

def toBytes (k : PublicKey) : List UInt8 :=
  textBlock k.algorithm.name ++ k.body

/-- The digest of the key, by which it is found. -/
def fingerprint (k : PublicKey) : String :=
  "SHA256:" ++ Base64.unpaddedText (sha256.digest k.toBytes)

end PublicKey

/-! ## Reading -/

namespace Decoder

def ofExcept {α : Type} (x : Except WireError α) : Decoder α :=
  liftM x

/-- The longest form of a curve point. -/
def maxPoint : Nat := 133

/-- An ECDSA key: the name of its curve and a point on that curve. -/
def ecdsaKey : Decoder (Curve × List UInt8) := do
  let curve ← curve
  let point ← blockUpTo maxPoint
  let found ← ofExcept (curveOfPoint point)
  if found ≠ curve then throw .unknownAlgorithm
  return (curve, point)

/-- The length of an Ed25519 key. -/
def ed25519Length : Nat := 32

/-- A key of a given algorithm, whose name has been read. -/
def publicKeyBody : Algorithm → Decoder PublicKey
  | .dsa => return .dsa (← integer) (← integer) (← integer) (← integer)
  | .ecdsa curve => do
    let (found, point) ← ecdsaKey
    if found ≠ curve then throw .unknownAlgorithm
    return .ecdsa curve point
  | .ed25519 => return .ed25519 (← blockOf ed25519Length)
  | .rsa _ => return .rsa (← integer) (← integer)
  | .skEcdsa => do
    if (← curve) ≠ .p256 then throw .crypto
    let point ← blockUpTo (2 * Curve.p256.fieldSize + 1)
    if !isPoint Curve.p256.fieldSize point then throw .point
    return .skEcdsa point (← text)
  | .skEd25519 => return .skEd25519 (← blockOf ed25519Length) (← text)
  | .other name => return .other name (← block)

def publicKey : Decoder PublicKey := do
  publicKeyBody (← algorithm)

end Decoder

/-- Reads a key that takes all the bytes. -/
def PublicKey.ofBytes (bytes : List UInt8) : Except WireError PublicKey :=
  Decoder.publicKey.runAll (.plain bytes)

end VaultAgent.Ssh
