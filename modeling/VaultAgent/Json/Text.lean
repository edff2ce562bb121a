import VaultAgent.Json
import VaultAgent.Text.Utf8

/-!
# Strings in JSON

What stands between the quotes of a string. `escape` writes a text there: quote, backslash and the
controls as escapes, all else as it is. `scan` finds the end of a string and checks its form;
`unescape?` gives its meaning, which half a surrogate pair or bytes that are not UTF-8 have not.
-/

namespace VaultAgent.Json

/-! ## Hexadecimal digits -/

/-- The sign for a number below 16. -/
def hexDigit (n : Nat) : UInt8 :=
  if n < 10 then UInt8.ofNat (48 + n) else UInt8.ofNat (87 + n)

def hexValue? (b : UInt8) : Option Nat :=
  let n := b.toNat
  if 48 ≤ n && n ≤ 57 then some (n - 48)
  else if 97 ≤ n && n ≤ 102 then some (n - 87)
  else if 65 ≤ n && n ≤ 70 then some (n - 55)
  else none

theorem hexValue?_hexDigit (n : Nat) (h : n < 16) : hexValue? (hexDigit n) = some n := by
  have : ∀ d : Fin 16, hexValue? (hexDigit d.val) = some d.val := by decide
  exact this ⟨n, h⟩

/-- The number that four hexadecimal digits spell. -/
def hexUnit? (a b c d : UInt8) : Option Nat := do
  return (← hexValue? a) * 4096 + (← hexValue? b) * 256 + (← hexValue? c) * 16 + (← hexValue? d)

/-! ## Escapes -/

/-- The letters that stand for a single byte after a backslash. -/
def letters : List (UInt8 × UInt8) :=
  [(quote, quote), (backslash, backslash), (47, 47), (98, 8), (102, 12), (110, 10), (114, 13),
    (116, 9)]

/-- The byte that a letter after a backslash stands for. -/
def letterValue? (letter : UInt8) : Option UInt8 :=
  letters.lookup letter

/-- The letter by which a byte is written. -/
def letterFor? (b : UInt8) : Option UInt8 :=
  if b = quote then some quote
  else if b = backslash then some backslash
  else if b = 8 then some 98
  else if b = 12 then some 102
  else if b = 10 then some 110
  else if b = 13 then some 114
  else if b = 9 then some 116
  else none

/-- How one byte of a text is written. -/
def escapeByte (b : UInt8) : List UInt8 :=
  match letterFor? b with
  | some letter => [backslash, letter]
  | none =>
    if b < 0x20 then
      [backslash, 117, 48, 48, hexDigit (b.toNat / 16), hexDigit (b.toNat % 16)]
    else [b]

/-- The text as it stands between quotes. -/
def escape (s : String) : List UInt8 :=
  (Utf8.bytes s).flatMap escapeByte

/-! ## The form of a string -/

/-- Splits what follows an opening quote at the closing one. Refuses controls and escapes of an
unknown form. -/
def scan : List UInt8 → Option (List UInt8 × List UInt8)
  | [] => none
  | b :: rest =>
    if b = quote then some ([], rest)
    else if b = backslash then
      match rest with
      | [] => none
      | e :: rest =>
        if e = 117 then
          match rest with
          | h₁ :: h₂ :: h₃ :: h₄ :: rest =>
            if (hexUnit? h₁ h₂ h₃ h₄).isSome then
              (scan rest).map fun (body, rest) => (b :: e :: h₁ :: h₂ :: h₃ :: h₄ :: body, rest)
            else none
          | _ => none
        else if (letterValue? e).isSome then
          (scan rest).map fun (body, rest) => (b :: e :: body, rest)
        else none
    else if b < 0x20 then none
    else (scan rest).map fun (body, rest) => (b :: body, rest)

/-! ## The meaning of a string -/

/-- The bytes that a body stands for. A high surrogate counts only together with a low one. -/
def unescapeBytes? : List UInt8 → Option (List UInt8)
  | [] => some []
  | b :: rest =>
    if b = backslash then
      match rest with
      | [] => none
      | e :: rest =>
        if e = 117 then
          match rest with
          | h₁ :: h₂ :: h₃ :: h₄ :: rest =>
            match hexUnit? h₁ h₂ h₃ h₄ with
            | none => none
            | some n =>
              if n < 0xD800 ∨ 0xE000 ≤ n then
                (Utf8.encodeChar (Char.ofNat n) ++ ·) <$> unescapeBytes? rest
              else if 0xDC00 ≤ n then none
              else
                match rest with
                | s :: u :: l₁ :: l₂ :: l₃ :: l₄ :: rest =>
                  if s = backslash ∧ u = 117 then
                    match hexUnit? l₁ l₂ l₃ l₄ with
                    | none => none
                    | some m =>
                      if 0xDC00 ≤ m ∧ m < 0xE000 then
                        (Utf8.encodeChar
                          (Char.ofNat (0x10000 + (n - 0xD800) * 1024 + (m - 0xDC00))) ++ ·) <$>
                          unescapeBytes? rest
                      else none
                  else none
                | _ => none
          | _ => none
        else
          match letterValue? e with
          | some v => (v :: ·) <$> unescapeBytes? rest
          | none => none
    else (b :: ·) <$> unescapeBytes? rest

/-- The text that a body stands for. -/
def unescape? (body : List UInt8) : Option String := do
  let bytes ← unescapeBytes? body
  match Utf8.string bytes with
  | .ok s => some s
  | .error _ => none

/-- The value that stands for a text. -/
def ofText (s : String) : Json :=
  string (escape s)

/-- The text of a string value. -/
def text? : Json → Option String
  | string body => unescape? body
  | _ => none

end VaultAgent.Json
