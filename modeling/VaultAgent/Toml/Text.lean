import VaultAgent.Toml

/-!
# Text in TOML documents

Blanks, comments and the ends of lines, and the four kinds of strings. A string is read in two
steps: first up to its closing quotes, where in double quotes a backslash protects the character
behind it, and then escapes are put in place. Lines end in a line feed alone here.
-/

namespace VaultAgent.Toml

def isBlank (c : Char) : Bool :=
  c = ' ' || c = '\t'

def skipBlank (cs : List Char) : List Char :=
  cs.dropWhile isBlank

/-- May the character stand in a comment, and for itself in a string? -/
def isPlain (c : Char) : Bool :=
  c = '\t' || (0x20 ≤ c.toNat && c.toNat ≠ 0x7F)

/-- The text behind a comment. -/
def skipComment (cs : List Char) : List Char :=
  match cs with
  | '#' :: rest => rest.dropWhile isPlain
  | _ => cs

/-- Reads the end of a line: blanks and a comment may come before it. -/
def lineEnd (cs : List Char) : Option (List Char) :=
  match skipComment (skipBlank cs) with
  | [] => some []
  | '\n' :: rest => some rest
  | _ => none

/-- What is left after blanks, comments and ends of lines. -/
def skipLines : List Char → List Char
  | [] => []
  | c :: rest =>
    if isBlank c || c = '\n' then skipLines rest
    else if c = '#' then skipCommented rest
    else c :: rest
where
  /-- The same from within a comment. -/
  skipCommented : List Char → List Char
    | [] => []
    | c :: rest =>
      if c = '\n' then skipLines rest
      else if isPlain c then skipCommented rest
      else c :: rest

/-- Takes an expected character off. -/
def expect (c : Char) : List Char → Option (List Char)
  | d :: rest => if d = c then some rest else none
  | [] => none

/-! ## Strings -/

/-- Does a backslash protect the character behind it between these quotes? -/
def escapes (quote : Char) : Bool :=
  quote = '"'

/-- What stands up to the closing quote on the same line. -/
def scanLine (quote : Char) : List Char → Option (List Char × List Char)
  | [] => none
  | c :: rest =>
    if c = quote then some ([], rest)
    else if !isPlain c then none
    else if c = '\\' && escapes quote then
      match rest with
      | [] => none
      | d :: rest =>
        if isPlain d then (scanLine quote rest).map fun (body, rest) => (c :: d :: body, rest)
        else none
    else (scanLine quote rest).map fun (body, rest) => (c :: body, rest)

/-- What stands up to three closing quotes. Up to two more in front of them belong to the string. -/
def scanLines (quote : Char) : List Char → Option (List Char × List Char)
  | [] => none
  | c :: rest =>
    if c = quote then
      let run := ((c :: rest).takeWhile (· = quote)).length
      if run ≥ 3 then
        let kept := min (run - 3) 2
        some (List.replicate kept quote, (c :: rest).drop (kept + 3))
      else (scanLines quote rest).map fun (body, rest) => (c :: body, rest)
    else if !isPlain c && c ≠ '\n' then none
    else if c = '\\' && escapes quote then
      match rest with
      | [] => none
      | d :: rest =>
        if isPlain d || d = '\n' then
          (scanLines quote rest).map fun (body, rest) => (c :: d :: body, rest)
        else none
    else (scanLines quote rest).map fun (body, rest) => (c :: body, rest)

/-- The character that is meant by one behind a backslash. -/
def shortEscape? : Char → Option Char
  | 'b' => some '\x08'
  | 't' => some '\t'
  | 'n' => some '\n'
  | 'f' => some '\x0c'
  | 'r' => some '\r'
  | '"' => some '"'
  | '\\' => some '\\'
  | _ => none

def hexValue? (c : Char) : Option Nat :=
  if '0' ≤ c ∧ c ≤ '9' then some (c.toNat - '0'.toNat)
  else if 'a' ≤ c ∧ c ≤ 'f' then some (c.toNat - 'a'.toNat + 10)
  else if 'A' ≤ c ∧ c ≤ 'F' then some (c.toNat - 'A'.toNat + 10)
  else none

/-- The number that digits spell. -/
def numeral (base : Nat) (digits : List Char) : Nat :=
  digits.foldl (fun n c => n * base + (hexValue? c).getD 0) 0

/-- The character with this code point in hexadecimal. There is none for a surrogate. -/
def codePoint? (digits : List Char) : Option Char :=
  let n := numeral 16 digits
  if digits.all (hexValue? · |>.isSome) && n.isValidChar then some (Char.ofNat n) else none

/-- Puts escapes in place. A backslash at the end of a line takes away the blanks and line ends that
follow; `folding` says that this goes on. -/
def unescape (folding : Bool) : List Char → Option (List Char)
  | [] => some []
  | '\\' :: 'u' :: a :: b :: c :: d :: rest => do
    return (← codePoint? [a, b, c, d]) :: (← unescape false rest)
  | '\\' :: 'U' :: a :: b :: c :: d :: e :: f :: g :: h :: rest => do
    return (← codePoint? [a, b, c, d, e, f, g, h]) :: (← unescape false rest)
  | '\\' :: e :: rest =>
    if (skipBlank (e :: rest)).head? = some '\n' then unescape true rest
    else do return (← shortEscape? e) :: (← unescape false rest)
  | c :: rest =>
    if folding && (isBlank c || c = '\n') then unescape true rest
    else (unescape false rest).map (c :: ·)

/-- The characters between quotes. -/
def meaning (quote : Char) (body : List Char) : Option String :=
  if escapes quote then (unescape false body).map String.ofList else some (String.ofList body)

/-- Reads a string on one line. -/
def lineString (quote : Char) (cs : List Char) : Option (String × List Char) := do
  let (body, rest) ← scanLine quote (← expect quote cs)
  return (← meaning quote body, rest)

/-- Reads a string over several lines. A line end right behind the opening quotes does not count. -/
def linesString (quote : Char) (cs : List Char) : Option (String × List Char) := do
  let rest ← expect quote (← expect quote (← expect quote cs))
  let (body, rest) ← scanLines quote ((expect '\n' rest).getD rest)
  return (← meaning quote body, rest)

/-- Reads a string. Three quotes in front begin one over several lines. -/
def string? (quote : Char) (cs : List Char) : Option (String × List Char) :=
  if [quote, quote, quote].isPrefixOf cs then linesString quote cs else lineString quote cs

end VaultAgent.Toml
