import VaultAgent.Text.Utf8

/-!
# Base64

The standard alphabet with padding, over byte lists (a base64 text is given by its UTF-8 bytes).
`decode` accepts exactly what `encode` writes: no blanks, no missing padding, no bits set after the
last whole byte. It reports the first fault and its offset.
-/

namespace VaultAgent.Base64

/-- The padding sign `=`. -/
def pad : UInt8 := 61

/-- The sign for a value below 64. -/
def symbol (v : Nat) : UInt8 :=
  if v < 26 then UInt8.ofNat (65 + v)
  else if v < 52 then UInt8.ofNat (71 + v)
  else if v < 62 then UInt8.ofNat (v - 4)
  else if v = 62 then 43
  else 47

/-- The value of a sign, if it is one of the alphabet. -/
def value? (b : UInt8) : Option Nat :=
  let n := b.toNat
  if 65 ≤ n && n ≤ 90 then some (n - 65)
  else if 97 ≤ n && n ≤ 122 then some (n - 71)
  else if 48 ≤ n && n ≤ 57 then some (n + 4)
  else if n = 43 then some 62
  else if n = 47 then some 63
  else none

theorem value?_symbol (v : Nat) (h : v < 64) : value? (symbol v) = some v := by
  have : ∀ v : Fin 64, value? (symbol v.val) = some v.val := by decide
  exact this ⟨v, h⟩

/-- Three bytes are written as four signs; one or two bytes at the end are padded to four. -/
def encode : List UInt8 → List UInt8
  | [] => []
  | [a] =>
    let n := a.toNat * 16
    [symbol (n / 64), symbol (n % 64), pad, pad]
  | [a, b] =>
    let n := (a.toNat * 256 + b.toNat) * 4
    [symbol (n / 4096), symbol (n / 64 % 64), symbol (n % 64), pad]
  | a :: b :: c :: rest =>
    let n := a.toNat * 65536 + b.toNat * 256 + c.toNat
    symbol (n / 262144) :: symbol (n / 4096 % 64) :: symbol (n / 64 % 64) :: symbol (n % 64) ::
      encode rest

/-- The written form as text. -/
def text (bs : List UInt8) : String :=
  Utf8.ascii (encode bs)

/-- The written form without the padding. -/
def unpaddedText (bs : List UInt8) : String :=
  Utf8.ascii ((encode bs).filter (· ≠ pad))

inductive DecodeError
  /-- A byte that cannot stand where it does. -/
  | symbol (byte : UInt8) (offset : Nat)
  /-- The last sign sets bits after the last whole byte. -/
  | lastSymbol (byte : UInt8) (offset : Nat)
  /-- A single sign is left over, which holds no whole byte. -/
  | inputLength (length : Nat)
  /-- The padding is missing or too short. -/
  | padding
  deriving DecidableEq, Repr

def DecodeError.message : DecodeError → String
  | symbol b i => s!"Invalid symbol {b.toNat}, offset {i}."
  | lastSymbol b i => s!"Invalid last symbol {b.toNat}, offset {i}."
  | inputLength n => s!"Invalid input length: {n}"
  | padding => "Invalid padding"

/-- The value of the sign `b` at `offset`. -/
def valueAt (offset : Nat) (b : UInt8) : Except DecodeError Nat :=
  match value? b with
  | some v => .ok v
  | none => .error (.symbol b offset)

/-- The values of signs that stand one after the other from `offset` on. -/
def valuesAt (offset : Nat) : List UInt8 → Except DecodeError (List Nat)
  | [] => .ok []
  | b :: bs => do
    let v ← valueAt offset b
    let vs ← valuesAt (offset + 1) bs
    return v :: vs

/-- The bytes of up to four values; a value that is not followed by enough others to make a whole
byte adds none. -/
def bytesOfValues : List Nat → List UInt8
  | [u, v] => [UInt8.ofNat ((u * 64 + v) / 16)]
  | [u, v, w] =>
    let n := u * 4096 + v * 64 + w
    [UInt8.ofNat (n / 1024), UInt8.ofNat (n / 4 % 256)]
  | [u, v, w, x] =>
    let n := u * 262144 + v * 4096 + w * 64 + x
    [UInt8.ofNat (n / 65536), UInt8.ofNat (n / 256 % 256), UInt8.ofNat (n % 256)]
  | _ => []

/-- The bits that the values hold after their last whole byte. -/
def surplusBits : List Nat → Nat
  | [_, v] => v % 16
  | [_, _, w] => w % 4
  | _ => 0

/-- Reads what stands after the last group that is followed by another: at most four bytes, the
only place where padding may stand. -/
def decodeSuffix (offset : Nat) (suffix : List UInt8) : Except DecodeError (List UInt8) := do
  let body := suffix.takeWhile (· ≠ pad)
  let padding := suffix.dropWhile (· ≠ pad)
  let values ← valuesAt offset body
  if padding ≠ [] ∧ (body.length < 2 ∨ ¬ padding.all (· = pad)) then
    throw (.symbol pad (offset + body.length))
  if suffix ≠ [] ∧ body.length < 2 then
    throw (.inputLength (offset + body.length))
  if suffix.length % 4 ≠ 0 then
    throw .padding
  if surplusBits values ≠ 0 then
    throw (.lastSymbol (body.getLastD pad) (offset + body.length - 1))
  return bytesOfValues values

/-- Reads groups of four signs as long as more follows, then the suffix. -/
def decodeGroups (offset : Nat) : List UInt8 → Except DecodeError (List UInt8)
  | a :: b :: c :: d :: e :: rest => do
    let values ← valuesAt offset [a, b, c, d]
    let bytes ← decodeGroups (offset + 4) (e :: rest)
    return bytesOfValues values ++ bytes
  | suffix => decodeSuffix offset suffix

/-- A single stray byte at the very end, such as a line break, is reported before all else. -/
def strayEnd? (text : List UInt8) : Option DecodeError :=
  if text.length % 4 = 1 then
    match text.getLast? with
    | some b => if b ≠ pad ∧ value? b = none then some (.symbol b (text.length - 1)) else none
    | none => none
  else none

def decode (text : List UInt8) : Except DecodeError (List UInt8) :=
  match strayEnd? text with
  | some e => .error e
  | none => decodeGroups 0 text

/-- The bytes that a base64 text stands for. -/
def ofText (s : String) : Except DecodeError (List UInt8) :=
  decode (Utf8.bytes s)

end VaultAgent.Base64
