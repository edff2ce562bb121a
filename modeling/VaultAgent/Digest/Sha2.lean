import VaultAgent.BigEndian

/-!
# The SHA-2 digests

SHA-256 and SHA-512 are one function with two sets of parameters: the width of a word, how far words
are rotated and shifted, the constants of the rounds, and the words to begin with. Words are numbers
below `p.words`.
-/

namespace VaultAgent

/-- What the digests of the family differ in. -/
structure Sha2 where
  /-- The width of a word in bytes. -/
  width : Nat
  /-- Two rotations and a shift, for the words that stand 15 places back in the schedule. -/
  near : Nat × Nat × Nat
  /-- Two rotations and a shift, for the words that stand two places back in the schedule. -/
  far : Nat × Nat × Nat
  /-- The rotations of the first state word in a round. -/
  first : Nat × Nat × Nat
  /-- The rotations of the fifth state word in a round. -/
  fifth : Nat × Nat × Nat
  /-- A constant for each round. -/
  constants : List Nat
  /-- The state to begin with. -/
  initial : List Nat

namespace Sha2

variable (p : Sha2)

/-- The width of a word in bits. -/
def bits : Nat := 8 * p.width

/-- How many words there are. -/
def words : Nat := capacity p.width

def add (x y : Nat) : Nat := (x + y) % p.words

/-- Moves the bits of a word `n` places down, around its end. -/
def rotate (n x : Nat) : Nat := (x >>> n) ||| (x <<< (p.bits - n)) % p.words

/-- Mixes a word of the schedule. -/
def mixShift (r : Nat × Nat × Nat) (x : Nat) : Nat :=
  p.rotate r.1 x ^^^ p.rotate r.2.1 x ^^^ (x >>> r.2.2)

/-- Mixes a word of the state. -/
def mixRotate (r : Nat × Nat × Nat) (x : Nat) : Nat :=
  p.rotate r.1 x ^^^ p.rotate r.2.1 x ^^^ p.rotate r.2.2 x

/-- Adds `n` words to a schedule whose last word comes first. -/
def extend : Nat → List Nat → List Nat
  | 0, ws => ws
  | n + 1, ws =>
    let w := p.add (p.add (p.mixShift p.far (ws.getD 1 0)) (ws.getD 6 0))
      (p.add (p.mixShift p.near (ws.getD 14 0)) (ws.getD 15 0))
    extend n (w :: ws)

/-- One round, for a constant and a word of the schedule. -/
def round (state : List Nat) (kw : Nat × Nat) : List Nat :=
  match state with
  | [a, b, c, d, e, f, g, h] =>
    let ones := p.words - 1
    let choice := (e &&& f) ^^^ ((e ^^^ ones) &&& g)
    let majority := (a &&& b) ^^^ (a &&& c) ^^^ (b &&& c)
    let t₁ := p.add (p.add (p.add h (p.mixRotate p.fifth e)) (p.add choice kw.1)) kw.2
    let t₂ := p.add (p.mixRotate p.first a) majority
    [p.add t₁ t₂, a, b, c, p.add d t₁, e, f, g]
  | _ => state

/-- Takes a block of sixteen words into the state. -/
def compress (state words : List Nat) : List Nat :=
  let schedule := (p.extend (p.constants.length - 16) words.reverse).reverse
  List.zipWith p.add state ((p.constants.zip schedule).foldl p.round state)

/-- Cuts a list into `n` pieces of a length. -/
def pieces {α : Type} (length : Nat) : Nat → List α → List (List α)
  | 0, _ => []
  | n + 1, xs => xs.take length :: pieces length n (xs.drop length)

/-- The message with a one bit, zeros and its length in bits behind it, in whole blocks. -/
def padded (message : List UInt8) : List UInt8 :=
  let blockBytes := 16 * p.width
  let lengthBytes := 2 * p.width
  let used := (message.length + 1 + lengthBytes) % blockBytes
  message ++ 0x80 :: List.replicate ((blockBytes - used) % blockBytes) 0 ++
    beBytes lengthBytes (8 * message.length)

def digest (message : List UInt8) : List UInt8 :=
  let bytes := p.padded message
  let blocks := pieces (16 * p.width) (bytes.length / (16 * p.width)) bytes
  let state := blocks.foldl
    (fun state block => p.compress state ((pieces p.width 16 block).map beValue)) p.initial
  state.flatMap (beBytes p.width)

end Sha2

def sha256 : Sha2 where
  width := 4
  near := (7, 18, 3)
  far := (17, 19, 10)
  first := (2, 13, 22)
  fifth := (6, 11, 25)
  constants := [
    0x428A2F98, 0x71374491, 0xB5C0FBCF, 0xE9B5DBA5, 0x3956C25B, 0x59F111F1, 0x923F82A4,
    0xAB1C5ED5, 0xD807AA98, 0x12835B01, 0x243185BE, 0x550C7DC3, 0x72BE5D74, 0x80DEB1FE,
    0x9BDC06A7, 0xC19BF174, 0xE49B69C1, 0xEFBE4786, 0x0FC19DC6, 0x240CA1CC, 0x2DE92C6F,
    0x4A7484AA, 0x5CB0A9DC, 0x76F988DA, 0x983E5152, 0xA831C66D, 0xB00327C8, 0xBF597FC7,
    0xC6E00BF3, 0xD5A79147, 0x06CA6351, 0x14292967, 0x27B70A85, 0x2E1B2138, 0x4D2C6DFC,
    0x53380D13, 0x650A7354, 0x766A0ABB, 0x81C2C92E, 0x92722C85, 0xA2BFE8A1, 0xA81A664B,
    0xC24B8B70, 0xC76C51A3, 0xD192E819, 0xD6990624, 0xF40E3585, 0x106AA070, 0x19A4C116,
    0x1E376C08, 0x2748774C, 0x34B0BCB5, 0x391C0CB3, 0x4ED8AA4A, 0x5B9CCA4F, 0x682E6FF3,
    0x748F82EE, 0x78A5636F, 0x84C87814, 0x8CC70208, 0x90BEFFFA, 0xA4506CEB, 0xBEF9A3F7,
    0xC67178F2]
  initial := [
    0x6A09E667, 0xBB67AE85, 0x3C6EF372, 0xA54FF53A, 0x510E527F, 0x9B05688C, 0x1F83D9AB,
    0x5BE0CD19]

def sha512 : Sha2 where
  width := 8
  near := (1, 8, 7)
  far := (19, 61, 6)
  first := (28, 34, 39)
  fifth := (14, 18, 41)
  constants := [
    0x428A2F98D728AE22, 0x7137449123EF65CD, 0xB5C0FBCFEC4D3B2F, 0xE9B5DBA58189DBBC,
    0x3956C25BF348B538, 0x59F111F1B605D019, 0x923F82A4AF194F9B, 0xAB1C5ED5DA6D8118,
    0xD807AA98A3030242, 0x12835B0145706FBE, 0x243185BE4EE4B28C, 0x550C7DC3D5FFB4E2,
    0x72BE5D74F27B896F, 0x80DEB1FE3B1696B1, 0x9BDC06A725C71235, 0xC19BF174CF692694,
    0xE49B69C19EF14AD2, 0xEFBE4786384F25E3, 0x0FC19DC68B8CD5B5, 0x240CA1CC77AC9C65,
    0x2DE92C6F592B0275, 0x4A7484AA6EA6E483, 0x5CB0A9DCBD41FBD4, 0x76F988DA831153B5,
    0x983E5152EE66DFAB, 0xA831C66D2DB43210, 0xB00327C898FB213F, 0xBF597FC7BEEF0EE4,
    0xC6E00BF33DA88FC2, 0xD5A79147930AA725, 0x06CA6351E003826F, 0x142929670A0E6E70,
    0x27B70A8546D22FFC, 0x2E1B21385C26C926, 0x4D2C6DFC5AC42AED, 0x53380D139D95B3DF,
    0x650A73548BAF63DE, 0x766A0ABB3C77B2A8, 0x81C2C92E47EDAEE6, 0x92722C851482353B,
    0xA2BFE8A14CF10364, 0xA81A664BBC423001, 0xC24B8B70D0F89791, 0xC76C51A30654BE30,
    0xD192E819D6EF5218, 0xD69906245565A910, 0xF40E35855771202A, 0x106AA07032BBD1B8,
    0x19A4C116B8D2D0C8, 0x1E376C085141AB53, 0x2748774CDF8EEB99, 0x34B0BCB5E19B48A8,
    0x391C0CB3C5C95A63, 0x4ED8AA4AE3418ACB, 0x5B9CCA4F7763E373, 0x682E6FF3D6B2B8A3,
    0x748F82EE5DEFB2FC, 0x78A5636F43172F60, 0x84C87814A1F0AB72, 0x8CC702081A6439EC,
    0x90BEFFFA23631E28, 0xA4506CEBDE82BDE9, 0xBEF9A3F7B2C67915, 0xC67178F2E372532B,
    0xCA273ECEEA26619C, 0xD186B8C721C0C207, 0xEADA7DD6CDE0EB1E, 0xF57D4F7FEE6ED178,
    0x06F067AA72176FBA, 0x0A637DC5A2C898A6, 0x113F9804BEF90DAE, 0x1B710B35131C471B,
    0x28DB77F523047D84, 0x32CAAB7B40C72493, 0x3C9EBE0A15C9BEBC, 0x431D67C49C100D4C,
    0x4CC5D4BECB3E42B6, 0x597F299CFC657E2A, 0x5FCB6FAB3AD6FAEC, 0x6C44198C4A475817]
  initial := [
    0x6A09E667F3BCC908, 0xBB67AE8584CAA73B, 0x3C6EF372FE94F82B, 0xA54FF53A5F1D36F1,
    0x510E527FADE682D1, 0x9B05688C2B3E6C1F, 0x1F83D9ABFB41BD6B, 0x5BE0CD19137E2179]

end VaultAgent
