import VaultAgent.Toml.Text

/-!
# Numbers in TOML documents

Integers are written in base ten, perhaps with a sign, or in base 16, 8 or 2 without one, and have
to fit into 64 bits. A float is refused if it is too large for a double. Between two digits there
may be an underscore, which means nothing.
-/

namespace VaultAgent.Toml

/-- The digits in front. An underscore belongs to them if a digit follows it. -/
def moreDigits (isDigit : Char → Bool) : List Char → List Char × List Char
  | [] => ([], [])
  | c :: rest =>
    if isDigit c then
      let (digits, rest) := moreDigits isDigit rest
      (c :: digits, rest)
    else if c = '_' then
      match rest with
      | [] => ([], [c])
      | d :: more =>
        if isDigit d then
          let (digits, rest) := moreDigits isDigit more
          (d :: digits, rest)
        else ([], c :: rest)
    else ([], c :: rest)

/-- The digits in front, of which there has to be one. -/
def digits (isDigit : Char → Bool) : List Char → Option (List Char × List Char)
  | [] => none
  | c :: rest => if isDigit c then some (moreDigits isDigit (c :: rest)) else none

/-- A sign, if there is one. `true` is minus. -/
def sign : List Char → Bool × List Char
  | '-' :: rest => (true, rest)
  | '+' :: rest => (false, rest)
  | cs => (false, cs)

def signed (negative : Bool) (n : Nat) : Int :=
  if negative then -n else n

/-- A sign, if there is one, and digits, of which the first is no zero if there are more. -/
def decimal (cs : List Char) : Option (Bool × List Char × List Char) :=
  let (negative, rest) := sign cs
  match rest with
  | '0' :: rest => some (negative, ['0'], rest)
  | _ => do
    let (digits, rest) ← digits Char.isDigit rest
    return (negative, digits, rest)

/-! ## Integers -/

/-- The base that a prefix stands for. -/
def base? : Char → Option Nat
  | 'x' => some 16
  | 'o' => some 8
  | 'b' => some 2
  | _ => none

def isDigitIn (base : Nat) (c : Char) : Bool :=
  match hexValue? c with
  | some d => d < base
  | none => false

/-- An integer before it is known to fit. -/
def anyInteger (cs : List Char) : Option (Int × List Char) :=
  match cs with
  | '0' :: letter :: rest =>
    match base? letter with
    | some base => do
      let (digits, rest) ← digits (isDigitIn base) rest
      return (numeral base digits, rest)
    | none => some (0, letter :: rest)
  | _ => do
    let (negative, digits, rest) ← decimal cs
    return (signed negative (numeral 10 digits), rest)

/-- The integers have 64 bits, of which one is the sign. -/
def integerLimit : Nat :=
  1 <<< 63

/-- Reads an integer. -/
def integer? (cs : List Char) : Option (Int × List Char) := do
  let (n, rest) ← anyInteger cs
  if -integerLimit ≤ n ∧ n < integerLimit then some (n, rest) else none

/-! ## Floats -/

/-- The least number that is rounded beyond the doubles. -/
def floatLimit : Nat :=
  (1 <<< 1024) - (1 <<< 970)

/-- A number with zeros behind it. -/
def withZeros (zeros n : Nat) : Nat :=
  Nat.repeat (10 * ·) zeros n

/-- Is the number too large for a double that has `power` zeros more than `digits` show, or so many
places behind the point if `power` is negative? -/
def isTooLarge (digits : List Char) (power : Int) : Bool :=
  let n := numeral 10 digits
  if n = 0 then false
  else if power ≥ 0 then power ≥ 309 || withZeros power.toNat n ≥ floatLimit
  else if (-power).toNat ≥ digits.length then false
  else n ≥ withZeros (-power).toNat floatLimit

/-- A point and digits. -/
def fraction (cs : List Char) : Option (List Char × List Char) := do
  digits Char.isDigit (← expect '.' cs)

/-- The letter `e`, perhaps a sign, and digits. -/
def exponent (cs : List Char) : Option (Int × List Char) := do
  match cs with
  | e :: rest =>
    if e ≠ 'e' ∧ e ≠ 'E' then none
    let (negative, rest) := sign rest
    let (digits, rest) ← digits Char.isDigit rest
    return (signed negative (numeral 10 digits), rest)
  | [] => none

/-- Reads a float with a fraction, an exponent or both. A negative one may be of any size. -/
def finiteFloat (cs : List Char) : Option (List Char) := do
  let (negative, whole, rest) ← decimal cs
  let (places, power, rest) ← match fraction rest with
    | some (places, rest) =>
      let (power, rest) := (exponent rest).getD (0, rest)
      some (places, power, rest)
    | none => (exponent rest).map fun (power, rest) => ([], power, rest)
  if !negative && isTooLarge (whole ++ places) (power - places.length) then none
  else some rest

/-- Infinity and what is no number, perhaps with a sign. -/
def specialFloat (cs : List Char) : Option (List Char) :=
  match (sign cs).2 with
  | 'i' :: 'n' :: 'f' :: rest => some rest
  | 'n' :: 'a' :: 'n' :: rest => some rest
  | _ => none

/-- Reads a float. -/
def float? (cs : List Char) : Option (List Char) :=
  finiteFloat cs <|> specialFloat cs

end VaultAgent.Toml
