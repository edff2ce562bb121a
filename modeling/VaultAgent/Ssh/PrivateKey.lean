import VaultAgent.Ssh.Ed25519
import VaultAgent.Ssh.Signature

/-!
# Private keys and certificates on the wire

An agent that holds no private keys still has to tell a well formed offer of one from bytes that
make no sense. The decoders here check the form and keep nothing.
-/

namespace VaultAgent.Ssh

namespace Decoder

/-- The private number of an ECDSA key: as long as the field, or longer by a zero in front. -/
def ecdsaScalar (curve : Curve) : Decoder Unit :=
  within do
    if (← remaining) = curve.fieldSize + 1 then
      if (← number 1) ≠ 0 then throw .format
    let _ ← take curve.fieldSize

/-- The public half, and then the seed and the public half again. -/
def ed25519Pair : Decoder Unit := do
  let key ← blockOf ed25519Length
  let pair ← blockOf (2 * ed25519Length)
  let again := pair.drop ed25519Length
  if Ed25519.publicKey (pair.take ed25519Length) ≠ again ∨ again ≠ key then throw .crypto

/-- What a private key adds to the certified public key. -/
def certifiedKey : Algorithm → Decoder Unit
  | .dsa => do
    let _ ← integer
  | .ecdsa curve => ecdsaScalar curve
  | .ed25519 => ed25519Pair
  | .rsa _ => do
    for _ in List.range 4 do
      let _ ← integer
  | .skEcdsa | .skEd25519 | .other _ => throw .unknownAlgorithm

/-- A private key of a given algorithm. -/
def privateKey : Algorithm → Decoder Unit
  | .dsa => do
    for _ in List.range 5 do
      let _ ← integer
  | .ecdsa curve => do
    let (found, _) ← ecdsaKey
    ecdsaScalar found
    if found ≠ curve then throw .unknownAlgorithm
  | .ed25519 => ed25519Pair
  | .rsa _ => do
    for _ in List.range 6 do
      let _ ← integer
  | .skEcdsa => tokenKey .skEcdsa
  | .skEd25519 => tokenKey .skEd25519
  | .other _ => do
    let _ ← block
    let _ ← block
where
  /-- A public key, the flags of the token, its handle for the key and a reserved string. -/
  tokenKey (a : Algorithm) : Decoder Unit := do
    let _ ← publicKeyBody a
    let _ ← number 1
    let _ ← block
    let _ ← block

/-- Reads values until none of the bytes are left. Each value has to take some. -/
def untilFinished (value : Decoder Unit) : Decoder Unit := do
  go (← remaining)
where
  go : Nat → Decoder Unit
    | 0 => return
    | n + 1 => do
      if ← isFinished then return
      value
      go n

/-- Options of a certificate in ascending order of their names; the data of each, if there are any,
are a text. -/
def certificateOptions : Decoder Unit :=
  within do
    go (← remaining) none
where
  go : Nat → Option String → Decoder Unit
    | 0, _ => return
    | n + 1, previous => do
      if ← isFinished then return
      let name ← text
      within do
        if (← remaining) > 0 then
          let _ ← text
      if previous.any (name ≤ ·) then throw .format
      go n (some name)

/-- A moment, in seconds; those beyond the signed range are refused. -/
def moment : Decoder Unit := do
  if (← number 8) ≥ capacity 8 / 2 then throw .time

/-- A certificate, with the name of its algorithm in front. -/
def certificate : Decoder Unit := do
  let name ← text
  match Algorithm.ofCertificateName? name with
  | none => throw (.label name)
  | some algorithm =>
    let _nonce ← block
    let _key ← publicKeyBody algorithm
    let _serial ← number 8
    let kind ← number 4
    if kind ≠ 1 ∧ kind ≠ 2 then throw .format
    let _id ← text
    within (untilFinished (do let _principal ← text))
    moment
    moment
    certificateOptions
    certificateOptions
    let _reserved ← block
    let _signer ← within publicKey
    let _signature ← within signature

end Decoder

end VaultAgent.Ssh
