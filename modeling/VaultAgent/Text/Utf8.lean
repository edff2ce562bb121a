/-!
# UTF-8

Text is a list of characters, and `encode` writes it as bytes. `decode` reads bytes back and refuses
whatever is not the shortest form of a character: it says where the first such place is, and how
many bytes there cannot be part of any character (`none` when the bytes only stop too early).
-/

namespace VaultAgent.Utf8

/-- The bytes of one character. -/
def encodeChar (c : Char) : List UInt8 :=
  let n := c.toNat
  if n < 0x80 then [UInt8.ofNat n]
  else if n < 0x800 then [UInt8.ofNat (0xC0 + n / 64), UInt8.ofNat (0x80 + n % 64)]
  else if n < 0x10000 then
    [UInt8.ofNat (0xE0 + n / 4096), UInt8.ofNat (0x80 + n / 64 % 64), UInt8.ofNat (0x80 + n % 64)]
  else
    [UInt8.ofNat (0xF0 + n / 262144), UInt8.ofNat (0x80 + n / 4096 % 64),
      UInt8.ofNat (0x80 + n / 64 % 64), UInt8.ofNat (0x80 + n % 64)]

def encode (cs : List Char) : List UInt8 :=
  cs.flatMap encodeChar

/-- The bytes of a string. -/
def bytes (s : String) : List UInt8 :=
  encode s.toList

/-- Where reading stopped: the bytes before `index` are sound. `length` counts the bytes from there
that fit no character; it is absent when the input ends inside a character. -/
structure Invalid where
  index : Nat
  length : Option Nat
  deriving DecidableEq, Repr

def Invalid.message : Invalid → String
  | ⟨index, some n⟩ => s!"invalid utf-8 sequence of {n} bytes from index {index}"
  | ⟨index, none⟩ => s!"incomplete utf-8 byte sequence from index {index}"

/-- A byte that goes on with a character begun before it. -/
def isContinuation (b : UInt8) : Bool :=
  0x80 ≤ b && b < 0xC0

/-- May `b` follow the first byte `a` of a three byte character? This keeps out longer forms than
needed and the surrogates. -/
def secondOfThree (a b : UInt8) : Bool :=
  if a = 0xE0 then 0xA0 ≤ b && b < 0xC0
  else if a = 0xED then 0x80 ≤ b && b < 0xA0
  else isContinuation b

/-- May `b` follow the first byte `a` of a four byte character? This keeps out longer forms than
needed and what lies beyond the last code point. -/
def secondOfFour (a b : UInt8) : Bool :=
  if a = 0xF0 then 0x90 ≤ b && b < 0xC0
  else if a = 0xF4 then 0x80 ≤ b && b < 0x90
  else isContinuation b

/-- The six low bits of a continuation byte. -/
def low (b : UInt8) : Nat :=
  b.toNat % 64

/-- Reads characters, `i` being the position of the first byte. -/
def decodeFrom (i : Nat) : List UInt8 → Except Invalid (List Char)
  | [] => .ok []
  | a :: rest =>
    if a < 0x80 then
      (Char.ofNat a.toNat :: ·) <$> decodeFrom (i + 1) rest
    else if a < 0xC2 then .error ⟨i, some 1⟩
    else if a < 0xE0 then
      match rest with
      | [] => .error ⟨i, none⟩
      | b :: rest =>
        if !isContinuation b then .error ⟨i, some 1⟩
        else (Char.ofNat (a.toNat % 32 * 64 + low b) :: ·) <$> decodeFrom (i + 2) rest
    else if a < 0xF0 then
      match rest with
      | [] => .error ⟨i, none⟩
      | b :: rest =>
        if !secondOfThree a b then .error ⟨i, some 1⟩
        else match rest with
        | [] => .error ⟨i, none⟩
        | c :: rest =>
          if !isContinuation c then .error ⟨i, some 2⟩
          else (Char.ofNat (a.toNat % 16 * 4096 + low b * 64 + low c) :: ·) <$>
            decodeFrom (i + 3) rest
    else if a < 0xF5 then
      match rest with
      | [] => .error ⟨i, none⟩
      | b :: rest =>
        if !secondOfFour a b then .error ⟨i, some 1⟩
        else match rest with
        | [] => .error ⟨i, none⟩
        | c :: rest =>
          if !isContinuation c then .error ⟨i, some 2⟩
          else match rest with
          | [] => .error ⟨i, none⟩
          | d :: rest =>
            if !isContinuation d then .error ⟨i, some 3⟩
            else (Char.ofNat (a.toNat % 8 * 262144 + low b * 4096 + low c * 64 + low d) :: ·) <$>
              decodeFrom (i + 4) rest
    else .error ⟨i, some 1⟩

def decode (bs : List UInt8) : Except Invalid (List Char) :=
  decodeFrom 0 bs

/-- The string that the bytes spell. -/
def string (bs : List UInt8) : Except Invalid String :=
  String.ofList <$> decode bs

/-- The string of bytes that are known to be ASCII. -/
def ascii (bs : List UInt8) : String :=
  String.ofList (bs.map fun b => Char.ofNat b.toNat)

end VaultAgent.Utf8
