/-!
# TOML documents

A document is a table of values and tables. Each table keeps how it came to be, because that decides
who may still add to it: a table is given a header once, what a dotted key has begun goes on only in
dotted keys of the same section, and what stands in braces is complete.

`ofStatements?` builds the document from its statements in order. It has no result as soon as one of
them gives a name a second meaning.
-/

namespace VaultAgent

/-- How a table came to be. -/
inductive Toml.Origin
  /-- It has a header of its own, or is the whole document. -/
  | header
  /-- It stands in the header of a deeper table only. -/
  | implied
  /-- A dotted key leads through it. -/
  | dotted
  /-- It is written in braces. -/
  | inline
  deriving DecidableEq, Repr

/-- Of a float and of a date nothing is kept but that it is one. -/
inductive Toml
  | string (text : String)
  | integer (n : Int)
  | boolean (b : Bool)
  | float
  | dateTime
  | array (items : List Toml)
  | table (origin : Toml.Origin) (entries : List (String × Toml))
  /-- The tables under a header in double brackets. -/
  | tables (rows : List (List (String × Toml)))
  deriving Repr

namespace Toml

/-- The entries of a table; each key stands in it once. -/
abbrev Entries := List (String × Toml)

/-- Gives a key this value in place of one that it may have. -/
def put (key : String) (value : Toml) : Entries → Entries
  | [] => [(key, value)]
  | (k, v) :: entries =>
    if k = key then (key, value) :: entries else (k, v) :: put key value entries

/-- Changes the table that a path leads to. Tables that are missing on the way come to be as `made`
says; of several tables under one name the last is meant. A table in braces is not entered, and a
dotted key does not enter a table with a header of its own. -/
def changeAt (made : Origin) (change : Origin → Entries → Option Entries) :
    List String → Origin → Entries → Option Entries
  | [], origin, entries => change origin entries
  | key :: path, _, entries =>
    match entries.lookup key with
    | none => do
      let inner ← changeAt made change path made []
      return put key (.table made inner) entries
    | some (.table origin inner) => do
      if origin = .inline ∨ made = .dotted ∧ origin = .header then none
      let inner ← changeAt made change path origin inner
      return put key (.table origin inner) entries
    | some (.tables rows) => do
      let row ← changeAt made change path .header (← rows.getLast?)
      return put key (.tables (rows.dropLast ++ [row])) entries
    | some _ => none

/-- Adds an entry under a dotted key, of which `path` is all but the last part. -/
def addEntry (path : List String) (key : String) (value : Toml) (origin : Origin)
    (entries : Entries) : Option Entries :=
  changeAt .dotted (fun origin entries =>
    if path ≠ [] ∧ origin ≠ .dotted ∨ (entries.lookup key).isSome then none
    else some (put key value entries)) path origin entries

/-- Gives a table its header. -/
def addHeader (path : List String) (key : String) : Entries → Option Entries :=
  changeAt .implied (fun _ entries =>
    match entries.lookup key with
    | none => some (put key (.table .header []) entries)
    | some (.table .implied inner) => some (put key (.table .header inner) entries)
    | some _ => none) path .header

/-- Begins a further table under a header in double brackets. -/
def addRow (path : List String) (key : String) : Entries → Option Entries :=
  changeAt .implied (fun _ entries =>
    match entries.lookup key with
    | none => some (put key (.tables [[]]) entries)
    | some (.tables rows) => some (put key (.tables (rows ++ [[]])) entries)
    | some _ => none) path .header

/-- The entries of a table in braces, added one after the other. -/
def inlineEntries? (written : List (List String × String × Toml)) : Option Entries :=
  written.foldlM (fun entries (path, key, value) => addEntry path key value .inline entries) []

inductive Statement
  | header (path : List String) (key : String)
  | row (path : List String) (key : String)
  | entry (path : List String) (key : String) (value : Toml)
  deriving Repr

/-- A document in the making: its entries, and the path of the section that goes on. -/
structure Draft where
  entries : Entries
  «section» : List String

/-- Adds what a statement says. -/
def Draft.add (d : Draft) : Statement → Option Draft
  | .header path key => do return ⟨← addHeader path key d.entries, path ++ [key]⟩
  | .row path key => do return ⟨← addRow path key d.entries, path ++ [key]⟩
  | .entry path key value => do
    let entries ← changeAt .implied (addEntry path key value) d.section .header d.entries
    return { d with entries }

/-- The entries of the document that consists of these statements. -/
def ofStatements? (statements : List Statement) : Option Entries := do
  let d ← statements.foldlM Draft.add ⟨[], []⟩
  return d.entries

end Toml

end VaultAgent
