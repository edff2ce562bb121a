import VaultAgent.Disk
import VaultAgent.Path
import VaultAgent.Store.Record

/-!
# Chains of groups

A stored secret names its parent, which names its own, up to a root. `Records.secret` follows the
names; a chain that comes back to a name, is too long, leads to a name that is not stored, or holds
public data that are not base64 is no secret. The other way, `Records.cascade` searches for the
records below a name, whether they are secrets or not.
-/

namespace VaultAgent

/-- What is wrong with a stored document. -/
inductive Corruption
  /-- The chain of a secret comes back to a name. -/
  | cycle (secret revisited : String)
  /-- The chain of a secret is too long. -/
  | tooDeep (secret : String)
  | notBase64 (name : String) (fault : Base64.DecodeError)
  /-- The file at this path is no document. -/
  | document (path : Path)
  deriving DecidableEq, Repr

inductive StoreError
  | notFound (name : String)
  | alreadyExists (name : String)
  | corrupt (what : Corruption)
  | io (error : OsError)
  deriving DecidableEq, Repr

namespace Store

/-- The most members a chain can have. -/
def maxDepth : Nat := 64

end Store

def Corruption.message : Corruption → String
  | cycle secret revisited =>
    s!"group cycle detected while resolving {secret} (revisited {revisited})"
  | tooDeep secret => s!"group chain of {secret} exceeds {Store.maxDepth} levels"
  | notBase64 name fault => s!"public data of {name} is not base64: {fault.message}"
  | document path => s!"{path.text}: <json>"

def StoreError.message : StoreError → String
  | notFound name => s!"no secret exists with name: {name}"
  | alreadyExists name =>
    s!"secret with name {name} already exists, please choose a different name"
  | corrupt what => s!"corrupt secret store: {what.message}"
  | io error => s!"secret store I/O error: {error.message}"

namespace Store.Records

/-! ## From a name to the root -/

/-- The chain from `name` up to its root, of at most `levels` members. `seen` are the names of the
members below, the first of which was `start`. -/
def chain (m : Records) (start : String) :
    Nat → List String → String → Except StoreError (List (String × Record))
  | levels, seen, name =>
    if name ∈ seen then .error (.corrupt (.cycle start name))
    else match levels with
      | 0 => .error (.corrupt (.tooDeep start))
      | levels + 1 =>
        match m.find? name with
        | none => .error (.notFound name)
        | some r =>
          match r.groupName? with
          | none => .ok [(name, r)]
          | some parent => ((name, r) :: ·) <$> chain m start levels (name :: seen) parent

def member (name : String) (r : Record) : Except StoreError Member :=
  match r.publicBytes with
  | .error fault => .error (.corrupt (.notBase64 name fault))
  | .ok publicData =>
    .ok { name, fileId := r.fileId, capId := r.capId, secretType := r.secretType, publicData }

/-- The members of a chain. Of several that are at fault the one nearest to the root is reported. -/
def members : List (String × Record) → Except StoreError (List Member)
  | [] => .ok []
  | (name, r) :: rest => do
    let above ← members rest
    return (← member name r) :: above

/-- The secret that is stored under a name. -/
def secret (m : Records) (name : String) : Except StoreError Secret := do
  match ← members (← chain m name maxDepth [] name) with
  | [] => throw (.notFound name)
  | first :: ancestors => return ⟨first, ancestors⟩

/-- All secrets in ascending order of their names, or the fault of the first one that has one. -/
def secrets (m : Records) : Except StoreError (List Secret) :=
  m.names.mapM (secret m)

/-! ## From a name to those below -/

/-- How far the search for the records below a name has come: the names that were found, and those of
them that wait to be asked for the records below them. -/
structure Search where
  found : List String
  waiting : List String
  deriving Repr

/-- A record that is grouped under `parent` is found, unless it was found before. -/
def Search.visit (parent : String) (s : Search) (entry : String × Record) : Search :=
  if entry.2.group = parent ∧ entry.1 ∉ s.found then
    ⟨s.found ++ [entry.1], s.waiting ++ [entry.1]⟩
  else s

/-- Asks the names that wait, one after the other, for the records below them. The records that are
found on a turn wait behind the others. -/
def spread (m : Records) : Nat → Search → Search
  | 0, s => s
  | turns + 1, s =>
    match s.waiting with
    | [] => s
    | parent :: waiting => spread m turns (m.toList.foldl (Search.visit parent) { s with waiting })

/-- `name` and all that is grouped under it, in the order in which the search comes by. No name waits
more than once, so the search needs no more turns than there are records and the name itself. -/
def cascade (m : Records) (name : String) : List String :=
  (spread m (m.size + 1) ⟨[name], [name]⟩).found

end Store.Records

end VaultAgent
