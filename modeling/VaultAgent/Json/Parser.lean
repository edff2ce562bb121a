import VaultAgent.Json.Text

/-!
# Reading JSON

`Json.ofBytes?` reads a document that is one value with blanks around it. It has no limit of its own
on how deep values stand in each other.
-/

namespace VaultAgent.Json

/-- Blank, tab, line feed or carriage return. -/
def isSpace (b : UInt8) : Bool :=
  b = 32 || b = 9 || b = 10 || b = 13

def skipSpace (bytes : List UInt8) : List UInt8 :=
  bytes.dropWhile isSpace

def isDigit (b : UInt8) : Bool :=
  48 ≤ b && b ≤ 57

/-- The digits in front, of which there has to be one. -/
def digits (bytes : List UInt8) : Option (List UInt8 × List UInt8) :=
  match bytes.takeWhile isDigit with
  | [] => none
  | ds => some (ds, bytes.dropWhile isDigit)

/-- The digits in front; a zero is followed by no other. -/
def wholePart (bytes : List UInt8) : Option (List UInt8 × List UInt8) := do
  let (ds, rest) ← digits bytes
  if ds.head? = some 48 ∧ ds.length ≠ 1 then none else some (ds, rest)

/-- A point and digits, if there is a point. -/
def fraction (bytes : List UInt8) : Option (List UInt8 × List UInt8) :=
  match bytes with
  | 46 :: rest => do
    let (ds, rest) ← digits rest
    return (46 :: ds, rest)
  | _ => some ([], bytes)

/-- The letter `e`, perhaps a sign, and digits, if there is that letter. -/
def exponent (bytes : List UInt8) : Option (List UInt8 × List UInt8) :=
  match bytes with
  | e :: rest =>
    if e = 101 ∨ e = 69 then
      match rest with
      | s :: more =>
        if s = 43 ∨ s = 45 then do
          let (ds, rest) ← digits more
          return (e :: s :: ds, rest)
        else do
          let (ds, rest) ← digits rest
          return (e :: ds, rest)
      | [] => none
    else some ([], bytes)
  | [] => some ([], [])

/-- The minus sign in front, if there is one. -/
def sign (bytes : List UInt8) : List UInt8 × List UInt8 :=
  match bytes with
  | 45 :: rest => ([45], rest)
  | _ => ([], bytes)

/-- The text of the number in front. -/
def numberText (bytes : List UInt8) : Option (List UInt8 × List UInt8) := do
  let (sign, rest) := sign bytes
  let (whole, rest) ← wholePart rest
  let (frac, rest) ← fraction rest
  let (exp, rest) ← exponent rest
  return (sign ++ whole ++ frac ++ exp, rest)

/-- Takes an expected beginning off. -/
def expect (beginning bytes : List UInt8) : Option (List UInt8) :=
  if beginning.isPrefixOf bytes then some (bytes.drop beginning.length) else none

/-- Takes an expected byte off, after blanks. -/
def expectByte (b : UInt8) (bytes : List UInt8) : Option (List UInt8) :=
  expect [b] (skipSpace bytes)

mutual

/-- Reads the value in front. Every turn takes a byte or goes on to a value, so turns twice as many
as bytes are enough. -/
def value : Nat → List UInt8 → Option (Json × List UInt8)
  | 0, _ => none
  | turns + 1, bytes =>
    match skipSpace bytes with
    | [] => none
    | b :: rest =>
      if b = quote then (scan rest).map fun (body, rest) => (string body, rest)
      else if b = openArray then
        match expectByte closeArray rest with
        | some rest => some (array [], rest)
        | none => (items turns rest).map fun (js, rest) => (array js, rest)
      else if b = openObject then
        match expectByte closeObject rest with
        | some rest => some (object [], rest)
        | none => (members turns rest).map fun (ms, rest) => (object ms, rest)
      else if b = 110 then (expect (ascii "ull") rest).map ((null, ·))
      else if b = 116 then (expect (ascii "rue") rest).map ((bool true, ·))
      else if b = 102 then (expect (ascii "alse") rest).map ((bool false, ·))
      else (numberText (b :: rest)).map fun (text, rest) => (number text, rest)

/-- Reads values with commas between them, to the end of an array. -/
def items : Nat → List UInt8 → Option (List Json × List UInt8)
  | 0, _ => none
  | turns + 1, bytes => do
    let (j, rest) ← value turns bytes
    match expectByte comma rest with
    | some rest =>
      let (js, rest) ← items turns rest
      return (j :: js, rest)
    | none => return ([j], ← expectByte closeArray rest)

/-- Reads keys and values with commas between them, to the end of an object. -/
def members : Nat → List UInt8 → Option (List (List UInt8 × Json) × List UInt8)
  | 0, _ => none
  | turns + 1, bytes => do
    let (key, rest) ← scan (← expectByte quote bytes)
    let (j, rest) ← value turns (← expectByte colon rest)
    match expectByte comma rest with
    | some rest =>
      let (ms, rest) ← members turns rest
      return ((key, j) :: ms, rest)
    | none => return ([(key, j)], ← expectByte closeObject rest)

end

/-- Reads a whole document. -/
def ofBytes? (bytes : List UInt8) : Option Json := do
  let (j, rest) ← value (2 * bytes.length + 1) bytes
  if skipSpace rest = [] then some j else none

end VaultAgent.Json
