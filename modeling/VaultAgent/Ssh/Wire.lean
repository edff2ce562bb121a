import VaultAgent.Base64.Stream
import VaultAgent.BigEndian
import VaultAgent.Text.Utf8

/-!
# The wire format of keys and messages

Numbers are big-endian, byte strings and texts carry their length in four bytes, and long integers
are byte strings without needless zeros in front. `Decoder` reads this format from bytes or from
base64 text; a value with a length in front can be read by a decoder of its own, which then sees no
more than that many bytes. What it leaves of them is neither skipped nor refused: the next field is
read from there.
-/

namespace VaultAgent.Ssh

/-- Why bytes are not what they should be. -/
inductive WireError
  /-- Too few bytes, or a field of a length that it cannot have. -/
  | length
  /-- A text that is not UTF-8 or holds a character that may not be there. -/
  | characters
  /-- A length beyond `maxLength`. -/
  | overflow
  /-- A name that does not say an algorithm or a curve. -/
  | label (name : String)
  /-- An algorithm or a form of a key that does not fit the place where it stands. -/
  | unknownAlgorithm
  /-- An integer that is not in its shortest form. -/
  | format
  /-- Parts of a key or signature that do not fit each other. -/
  | crypto
  /-- A curve point that is not well formed. -/
  | point
  /-- A moment too far away. -/
  | time
  /-- The base64 text around the bytes is at fault. -/
  | base64 (fault : Base64.StreamError)
  /-- Bytes are left over. -/
  | trailing (count : Nat)
  deriving DecidableEq, Repr

def WireError.message : WireError → String
  | length => "length invalid"
  | characters => "character encoding invalid"
  | overflow => "internal overflow error"
  | label name => s!"invalid label: '{name}'"
  | unknownAlgorithm => "unknown algorithm"
  | format => "format encoding error"
  | crypto => "cryptographic error"
  | point => "ECDSA encoding error: elliptic curve point encoding error"
  | time => "invalid time"
  | base64 .encoding => "Base64 encoding error: invalid Base64 encoding"
  | base64 .length => "Base64 encoding error: invalid Base64 length"
  | trailing n => s!"unexpected trailing data at end of message ({n} bytes)"

/-! ## Writing -/

/-- A number in four bytes. -/
def word (n : Nat) : List UInt8 :=
  beBytes 4 n

/-- Bytes behind their length. -/
def block (bytes : List UInt8) : List UInt8 :=
  word bytes.length ++ bytes

/-- A text behind the length of its bytes. -/
def textBlock (s : String) : List UInt8 :=
  block (Utf8.bytes s)

/-! ## Reading -/

/-- Where bytes come from. -/
inductive Source
  | plain (left : List UInt8)
  | base64 (stream : Base64.Stream)
  deriving DecidableEq, Repr

/-- The source and, innermost first, how many bytes the values being read may still take from it. -/
structure Reader where
  source : Source
  limits : List Nat
  deriving DecidableEq, Repr

abbrev Decoder := StateT Reader (Except WireError)

namespace Source

/-- How many bytes are left. -/
def size : Source → Nat
  | plain left => left.length
  | base64 stream => stream.size

def take (n : Nat) : Source → Except WireError (List UInt8 × Source)
  | plain left =>
    if n ≤ left.length then .ok (left.take n, .plain (left.drop n)) else .error .length
  | base64 stream =>
    match stream.take n with
    | .ok (bytes, stream) => .ok (bytes, .base64 stream)
    | .error e => .error (.base64 e)

end Source

namespace Decoder

/-- How many bytes the value being read may still take. -/
def remaining : Decoder Nat := do
  let r ← get
  return r.limits.headD r.source.size

/-- Takes exactly `n` bytes. -/
def take (n : Nat) : Decoder (List UInt8) := fun r =>
  if r.limits.all (n ≤ ·) then do
    let (bytes, source) ← r.source.take n
    return (bytes, ⟨source, r.limits.map (· - n)⟩)
  else .error .length

/-- All bytes that the value being read may still take. -/
def rest : Decoder (List UInt8) := do
  take (← remaining)

/-- A number of `width` bytes. -/
def number (width : Nat) : Decoder Nat :=
  beValue <$> take width

/-- No value is longer than this. -/
def maxLength : Nat := 0xFFFFF

def length : Decoder Nat := do
  let n ← number 4
  if n > maxLength then throw .overflow
  return n

/-- Reads a length and then a value that may take no more than that many bytes. -/
def within {α : Type} (value : Decoder α) : Decoder α := do
  let n ← length
  modify fun r => { r with limits := n :: r.limits }
  let a ← value
  modify fun r => { r with limits := r.limits.tail }
  return a

/-- Bytes behind their length. -/
def block : Decoder (List UInt8) :=
  within rest

/-- Bytes behind a length that is at most `most`. -/
def blockUpTo (most : Nat) : Decoder (List UInt8) :=
  within do
    if (← remaining) > most then throw .length
    rest

/-- The first `n` bytes of those behind a length. -/
def blockOf (n : Nat) : Decoder (List UInt8) :=
  within (take n)

/-- The text that bytes spell. -/
def spelled (bytes : List UInt8) : Decoder String :=
  match Utf8.string bytes with
  | .ok s => pure s
  | .error _ => throw .characters

/-- A text behind its length. -/
def text : Decoder String := do
  spelled (← block)

/-- The longest name of an algorithm or a curve, in bytes. -/
def maxLabel : Nat := 48

/-- The name of an algorithm or a curve. -/
def label : Decoder String := do
  spelled (← blockUpTo maxLabel)

/-- Is this the shortest form of an integer whose top bit is its sign? -/
def isShortest : List UInt8 → Bool
  | [0] => false
  | 0 :: b :: _ => 0x80 ≤ b
  | _ => true

/-- A long integer, as its bytes. -/
def integer : Decoder (List UInt8) := do
  let bytes ← block
  if !isShortest bytes then throw .format
  return bytes

/-- Are all bytes taken? -/
def isFinished : Decoder Bool := do
  return (← remaining) = 0

/-- Refuses bytes that are left over. -/
def finish : Decoder Unit := do
  let n ← remaining
  if n ≠ 0 then throw (.trailing n)

/-- Reads a value from the beginning of the bytes. -/
def run {α : Type} (value : Decoder α) (source : Source) : Except WireError α :=
  value.run' ⟨source, []⟩

/-- Reads a value that takes all the bytes. -/
def runAll {α : Type} (value : Decoder α) (source : Source) : Except WireError α :=
  run (do let a ← value; finish; return a) source

end Decoder

end VaultAgent.Ssh
