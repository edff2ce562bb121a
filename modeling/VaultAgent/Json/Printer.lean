import VaultAgent.Json

/-!
# Writing JSON

`compact` writes a value without blanks on one line. `pretty` gives every item a line of its own,
two blanks deeper than the brackets around it; brackets with nothing between them stay together.
-/

namespace VaultAgent.Json

def quoted (body : List UInt8) : List UInt8 :=
  quote :: body ++ [quote]

/-- The text of `null`, `true`, `false`, a number or a string. -/
def leaf : Json → List UInt8
  | bool true => ascii "true"
  | bool false => ascii "false"
  | number text => text
  | string body => quoted body
  | _ => ascii "null"

mutual

def compact : Json → List UInt8
  | array items => openArray :: compactItems items ++ [closeArray]
  | object members => openObject :: compactMembers members ++ [closeObject]
  | j => leaf j

def compactItems : List Json → List UInt8
  | [] => []
  | [j] => compact j
  | j :: js => compact j ++ comma :: compactItems js

def compactMembers : List (List UInt8 × Json) → List UInt8
  | [] => []
  | [(key, j)] => quoted key ++ colon :: compact j
  | (key, j) :: ms => quoted key ++ colon :: compact j ++ comma :: compactMembers ms

end

/-- A new line with blanks in front. -/
def newLine (depth : Nat) : List UInt8 :=
  10 :: List.replicate (2 * depth) 32

mutual

/-- The text of a value that stands `depth` brackets deep. -/
def prettyAt (depth : Nat) : Json → List UInt8
  | array [] => [openArray, closeArray]
  | object [] => [openObject, closeObject]
  | array items => openArray :: prettyItems (depth + 1) items ++ newLine depth ++ [closeArray]
  | object members =>
    openObject :: prettyMembers (depth + 1) members ++ newLine depth ++ [closeObject]
  | j => leaf j

def prettyItems (depth : Nat) : List Json → List UInt8
  | [] => []
  | [j] => newLine depth ++ prettyAt depth j
  | j :: js => newLine depth ++ prettyAt depth j ++ comma :: prettyItems depth js

def prettyMembers (depth : Nat) : List (List UInt8 × Json) → List UInt8
  | [] => []
  | [(key, j)] => newLine depth ++ quoted key ++ colon :: 32 :: prettyAt depth j
  | (key, j) :: ms =>
    newLine depth ++ quoted key ++ colon :: 32 :: prettyAt depth j ++ comma ::
      prettyMembers depth ms

end

def pretty (j : Json) : List UInt8 :=
  prettyAt 0 j

end VaultAgent.Json
