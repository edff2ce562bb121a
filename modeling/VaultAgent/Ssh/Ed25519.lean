import VaultAgent.Digest.Sha2

/-!
# Ed25519 public keys from seeds

The twisted Edwards curve `-x² + y² = 1 + d x² y²` over the integers modulo `2 ^ 255 - 19`, as far
as it takes to derive the public key of a seed: a multiple of the base point, in compressed form.
-/

namespace VaultAgent.Ed25519

/-- The prime of the field. -/
def p : Nat := (1 <<< 255) - 19

/-- The parameter `d` of the curve. -/
def d : Nat := 37095705934669439343138083508754565189542113879843219016388785533085940283555

/-- A point as `X : Y : Z : T` with `x = X / Z`, `y = Y / Z` and `x y = T / Z`. -/
structure Point where
  x : Nat
  y : Nat
  z : Nat
  t : Nat

namespace Point

def zero : Point := ⟨0, 1, 1, 0⟩

def base : Point :=
  let x := 15112221349535400772501151409588531511454012693041857206046113283949847762202
  let y := 46316835694926478169428394003475163141307993866256225615783033603165251855960
  ⟨x, y, 1, x * y % p⟩

/-- The sum of two points, which may be equal. -/
def add (a b : Point) : Point :=
  let u := (a.y + p - a.x) * (b.y + p - b.x) % p
  let v := (a.y + a.x) * (b.y + b.x) % p
  let w := 2 * a.t * b.t % p * d % p
  let z := 2 * a.z * b.z % p
  let e := v + p - u
  let f := z + p - w
  let g := z + w
  let h := v + u
  ⟨e * f % p, g * h % p, f * g % p, e * h % p⟩

/-- `n` times a point, for `n` below `2 ^ bits`. -/
def times : Nat → Nat → Point → Point
  | 0, _, _ => zero
  | bits + 1, n, a =>
    let rest := times bits (n / 2) (a.add a)
    if n % 2 = 1 then a.add rest else rest

end Point

/-- `a ^ e` modulo `p`, for `e` below `2 ^ bits`. -/
def power : Nat → Nat → Nat → Nat
  | 0, _, _ => 1
  | bits + 1, a, e =>
    let rest := power bits (a * a % p) (e / 2)
    if e % 2 = 1 then a * rest % p else rest

/-- The number that bytes spell, the least significant first. -/
def ofLittleEndian (bytes : List UInt8) : Nat :=
  beValue bytes.reverse

/-- The `y` coordinate with the parity of the `x` coordinate in its top bit. -/
def compress (a : Point) : List UInt8 :=
  let inverse := power 255 a.z (p - 2)
  let x := a.x * inverse % p
  let y := a.y * inverse % p
  (beBytes 32 (y + ((x % 2) <<< 255))).reverse

/-- The factor that a seed stands for: a multiple of eight with bit 254 as its highest. -/
def scalar (seed : List UInt8) : Nat :=
  let n := ofLittleEndian ((sha512.digest seed).take 32)
  n / 8 * 8 % (1 <<< 254) + (1 <<< 254)

def publicKey (seed : List UInt8) : List UInt8 :=
  compress (Point.times 255 (scalar seed) .base)

end VaultAgent.Ed25519
