/-!
# Paths

A path is kept as it was written. It leads through the names between its slashes, where an empty
name and a single point stay where they are. Only a path that begins with a slash is absolute.
-/

namespace VaultAgent

structure Path where
  text : String
  deriving DecidableEq, Repr

namespace Path

/-- The pieces between slashes. -/
def split : List Char → List (List Char)
  | [] => [[]]
  | c :: cs =>
    if c = '/' then [] :: split cs
    else match split cs with
      | [] => [[c]]
      | piece :: pieces => (c :: piece) :: pieces

/-- The pieces with slashes between them. -/
def unsplit : List (List Char) → List Char
  | [] => []
  | [piece] => piece
  | piece :: pieces => piece ++ '/' :: unsplit pieces

/-- A piece that leads nowhere. -/
def isIdle (piece : List Char) : Bool :=
  piece = [] || piece = ['.']

def isEmpty (p : Path) : Bool :=
  p.text.toList.isEmpty

def isAbsolute (p : Path) : Bool :=
  p.text.toList.head? = some '/'

/-- Drops the idle pieces at the end. -/
def trimEnd (pieces : List (List Char)) : List (List Char) :=
  (pieces.reverse.dropWhile isIdle).reverse

/-- What is between the slashes, where there is something. -/
def pieces (p : Path) : List String :=
  ((split p.text.toList).filter (· ≠ [])).map String.ofList

/-- How many names the path leads through. -/
def depth (p : Path) : Nat :=
  ((split p.text.toList).filter (!isIdle ·)).length

def endsInSlash (p : Path) : Bool :=
  p.text.toList.getLast? = some '/'

/-- The path without its last name, and without idle pieces at the end. -/
def parent (p : Path) : Path :=
  let (lead, body) := if p.isAbsolute then (['/'], p.text.toList.drop 1) else ([], p.text.toList)
  ⟨String.ofList (lead ++ unsplit (trimEnd (trimEnd (split body)).dropLast))⟩

/-- The path, its parent, the parent of that and so on. -/
def lineage : Nat → Path → List Path
  | 0, _ => []
  | n + 1, p => p :: lineage n p.parent

/-- The path and its parents, as long as they have a name. -/
def ancestors (p : Path) : List Path :=
  if p.pieces = [] then [] else p :: lineage (p.depth - 1) p.parent

/-- Goes on from a path. -/
def join (p q : Path) : Path :=
  if q.isAbsolute then q
  else if p.isEmpty || p.endsInSlash then ⟨p.text ++ q.text⟩
  else ⟨p.text ++ "/" ++ q.text⟩

/-- What follows a first step `~`, without idle pieces at its ends. -/
def afterTilde? (p : Path) : Option Path :=
  match split p.text.toList with
  | ['~'] :: rest =>
    some ⟨String.ofList (unsplit (trimEnd (rest.dropWhile isIdle)))⟩
  | _ => none

/-- Puts the home directory in place of a first step `~`, if there is a home. -/
def expandHome (home : Option String) (p : Path) : Path :=
  match p.afterTilde?, home with
  | some rest, some home => join ⟨home⟩ rest
  | _, _ => p

/-- The path with something written behind it. -/
def extend (p : Path) (suffix : String) : Path :=
  ⟨p.text ++ suffix⟩

end Path

end VaultAgent
