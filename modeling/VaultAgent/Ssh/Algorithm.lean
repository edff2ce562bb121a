import VaultAgent.Ssh.Wire

/-!
# Names of algorithms and curves

The algorithms of keys and signatures by their registered names, and any other of the form
`name@domain`.
-/

namespace VaultAgent.Ssh

/-- The curves of ECDSA keys. -/
inductive Curve
  | p256
  | p384
  | p521
  deriving DecidableEq, Repr

namespace Curve

def name : Curve → String
  | p256 => "nistp256"
  | p384 => "nistp384"
  | p521 => "nistp521"

def all : List Curve :=
  [p256, p384, p521]

def ofName? (s : String) : Option Curve :=
  all.find? (·.name = s)

theorem ofName?_name (c : Curve) : ofName? c.name = some c := by
  cases c <;> decide

/-- How many bytes a coordinate takes. -/
def fieldSize : Curve → Nat
  | p256 => 32
  | p384 => 48
  | p521 => 66

end Curve

/-- The digests that an RSA signature may be made with. -/
inductive RsaHash
  | sha256
  | sha512
  deriving DecidableEq, Repr

inductive Algorithm
  | dsa
  | ecdsa (curve : Curve)
  | ed25519
  /-- RSA with the digest of the signature; without one it names keys, and signatures over SHA-1. -/
  | rsa (hash : Option RsaHash)
  /-- ECDSA in a security token. -/
  | skEcdsa
  /-- Ed25519 in a security token. -/
  | skEd25519
  | other (name : String)
  deriving DecidableEq, Repr

namespace Algorithm

def name : Algorithm → String
  | dsa => "ssh-dss"
  | ecdsa curve => "ecdsa-sha2-" ++ curve.name
  | ed25519 => "ssh-ed25519"
  | rsa none => "ssh-rsa"
  | rsa (some .sha256) => "rsa-sha2-256"
  | rsa (some .sha512) => "rsa-sha2-512"
  | skEcdsa => "sk-ecdsa-sha2-nistp256@openssh.com"
  | skEd25519 => "sk-ssh-ed25519@openssh.com"
  | other name => name

/-- The algorithms of keys that have a registered name. -/
def ofKeys : List Algorithm :=
  [dsa, ecdsa .p256, ecdsa .p384, ecdsa .p521, ed25519, rsa none, skEcdsa, skEd25519]

/-- The algorithms that have a registered name. -/
def registered : List Algorithm :=
  ofKeys ++ [rsa (some .sha256), rsa (some .sha512)]

/-- The longest name of the form `name@domain`. -/
def maxOtherName : Nat := 64

/-- The two parts of a name of the form `name@domain`: neither is empty and there is one `@`. -/
def splitName? (s : String) : Option (List Char × List Char) :=
  let first := s.toList.takeWhile (· ≠ '@')
  let domain := (s.toList.dropWhile (· ≠ '@')).drop 1
  if first = [] ∨ domain = [] ∨ '@' ∈ domain ∨ s.toList.any (0x80 ≤ ·.toNat) then none
  else some (first, domain)

def ofName? (s : String) : Option Algorithm :=
  match registered.find? (·.name = s) with
  | some a => some a
  | none =>
    if s.toList.length ≤ maxOtherName ∧ (splitName? s).isSome then some (other s) else none

/-- What the first part of the name of a certificate ends with. -/
def certificateMark : List Char :=
  "-cert-v01".toList

/-- The name that a certificate of a key with this registered algorithm bears. -/
def certificateName : Algorithm → String
  | skEcdsa => "sk-ecdsa-sha2-nistp256-cert-v01@openssh.com"
  | skEd25519 => "sk-ssh-ed25519-cert-v01@openssh.com"
  | a => a.name ++ "-cert-v01@openssh.com"

/-- The algorithm of the key that a certificate of this name certifies. -/
def ofCertificateName? (s : String) : Option Algorithm :=
  match ofKeys.find? (·.certificateName = s) with
  | some a => some a
  | none =>
    match splitName? s with
    | some (first, domain) =>
      if s.toList.length ≤ maxOtherName + certificateMark.length ∧
          certificateMark.isSuffixOf first then
        let stem := first.take (first.length - certificateMark.length)
        some (other (String.ofList (stem ++ '@' :: domain)))
      else none
    | none => none

end Algorithm

namespace Decoder

/-- The name of a curve. -/
def curve : Decoder Curve := do
  let name ← label
  match Curve.ofName? name with
  | some c => return c
  | none => throw (.label name)

/-- The name of an algorithm. -/
def algorithm : Decoder Algorithm := do
  let name ← label
  match Algorithm.ofName? name with
  | some a => return a
  | none => throw (.label name)

end Decoder

end VaultAgent.Ssh
