import VaultAgent.Toml.DateTime
import VaultAgent.Toml.Number

/-!
# Reading TOML

`Toml.ofText?` reads a document: first its statements, a line each unless a value goes over
several, and then what they say together (`ofStatements?`). Values may stand in each other only to
a limit, and a dotted key has no more parts than that.
-/

namespace VaultAgent.Toml

/-- Values stand in each other, and keys have parts, up to this number. -/
def depthLimit : Nat := 79

/-! ## Keys -/

def isKeyChar (c : Char) : Bool :=
  c.isAlphanum || c = '_' || c = '-'

/-- One part of a key: a name without quotes or in either kind of them. -/
def keyPart (cs : List Char) : Option (String × List Char) :=
  match cs with
  | '"' :: _ => lineString '"' cs
  | '\x27' :: _ => lineString '\x27' cs
  | _ =>
    match cs.takeWhile isKeyChar with
    | [] => none
    | name => some (String.ofList name, cs.dropWhile isKeyChar)

/-- Reads as many parts as said at most, with points between them and blanks around them. -/
def keyParts : Nat → List Char → Option (List String × List Char)
  | 0, _ => none
  | parts + 1, cs => do
    let (name, rest) ← keyPart (skipBlank cs)
    match expect '.' (skipBlank rest) with
    | some rest => do
      let (names, rest) ← keyParts parts rest
      return (name :: names, rest)
    | none => return ([name], skipBlank rest)

/-- Reads a key. Gives its last part apart. -/
def key (cs : List Char) : Option ((List String × String) × List Char) := do
  let (names, rest) ← keyParts depthLimit cs
  return ((names.dropLast, names.getLastD ""), rest)

/-! ## Values -/

/-- Reads a word of the language. -/
def word (text : String) (value : Toml) (cs : List Char) : Option (Toml × List Char) :=
  if text.toList.isPrefixOf cs then some (value, cs.drop text.length) else none

/-- Reads a value that holds no others. -/
def scalar (cs : List Char) : Option (Toml × List Char) :=
  match cs with
  | '"' :: _ => (string? '"' cs).map fun (s, rest) => (.string s, rest)
  | '\x27' :: _ => (string? '\x27' cs).map fun (s, rest) => (.string s, rest)
  | _ =>
    word "true" (.boolean true) cs
      <|> word "false" (.boolean false) cs
      <|> (dateTime? cs).map (.dateTime, ·)
      <|> (float? cs).map (.float, ·)
      <|> (integer? cs).map fun (n, rest) => (.integer n, rest)

mutual

/-- Reads the value in front, in which others stand up to a depth. Every turn takes a character or
goes on to a value, so turns twice as many as characters are enough. -/
def value : (depth turns : Nat) → List Char → Option (Toml × List Char)
  | depth + 1, turns + 1, '[' :: rest => do
    let (items, rest) ← items depth turns (skipLines rest)
    return (.array items, rest)
  | depth + 1, turns + 1, '{' :: rest => do
    let (written, rest) ← match expect '}' (skipBlank rest) with
      | some rest => some ([], rest)
      | none => members depth turns rest
    return (.table .inline (← inlineEntries? written), rest)
  | _, _, cs => scalar cs

/-- Reads items with commas between them, and perhaps behind them, to the end of an array. -/
def items : (depth turns : Nat) → List Char → Option (List Toml × List Char)
  | depth, turns + 1, cs =>
    match expect ']' cs with
    | some rest => some ([], rest)
    | none => do
      let (item, rest) ← value depth turns cs
      let rest := skipLines rest
      match expect ',' rest with
      | some rest => do
        let (rest', end') ← items depth turns (skipLines rest)
        return (item :: rest', end')
      | none => return ([item], ← expect ']' rest)
  | _, 0, _ => none

/-- Reads keys and values with commas between them, to the end of a table in braces. -/
def members : (depth turns : Nat) → List Char →
    Option (List (List String × String × Toml) × List Char)
  | depth, turns + 1, cs => do
    let ((path, name), rest) ← key cs
    let (item, rest) ← value depth turns (skipBlank (← expect '=' rest))
    let rest := skipBlank rest
    match expect ',' rest with
    | some rest => do
      let (more, rest) ← members depth turns rest
      return ((path, name, item) :: more, rest)
    | none => return ([(path, name, item)], ← expect '}' rest)
  | _, 0, _ => none

end

/-! ## Statements -/

/-- Reads a statement up to the end of its line. -/
def statement (cs : List Char) : Option (Statement × List Char) :=
  match cs with
  | '[' :: '[' :: rest => do
    let ((path, name), rest) ← key rest
    return (.row path name, ← expect ']' (← expect ']' rest))
  | '[' :: rest => do
    let ((path, name), rest) ← key rest
    return (.header path name, ← expect ']' rest)
  | _ => do
    let ((path, name), rest) ← key cs
    let (item, rest) ←
      value depthLimit (2 * rest.length + 1) (skipBlank (← expect '=' rest))
    return (.entry path name item, rest)

/-- Reads statements to the end of the text. Every turn takes a line. -/
def statements : (turns : Nat) → List Char → Option (List Statement)
  | 0, _ => none
  | turns + 1, cs =>
    match skipLines cs with
    | [] => some []
    | c :: rest => do
      let (first, rest) ← statement (c :: rest)
      let more ← statements turns (← lineEnd rest)
      return first :: more

/-! ## Documents -/

/-- The text with a line feed alone at each end of a line. -/
def joinLineEnds : List Char → List Char
  | [] => []
  | '\r' :: '\n' :: rest => '\n' :: joinLineEnds rest
  | c :: rest => c :: joinLineEnds rest

/-- The text without the mark that may stand at its beginning. -/
def dropMark : List Char → List Char
  | '\ufeff' :: rest => rest
  | cs => cs

/-- The entries of a document. -/
def ofText? (cs : List Char) : Option Entries := do
  let cs := joinLineEnds (dropMark cs)
  ofStatements? (← statements (cs.length + 1) cs)

end VaultAgent.Toml
