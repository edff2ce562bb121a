import VaultAgent.BigEndian
import VaultAgent.Json.Text

/-!
# Records in JSON

A record of named fields stands in a document as an object, or as an array of its fields in order.
Keys that name no field are passed over, whatever their value; a field that is missing has its
default; a field that is there twice is refused, and so are items beyond the last field.
-/

namespace VaultAgent.Json

/-- No more than this many records, maps and arrays that are being read may stand in each other. -/
def maxDepth : Nat := 127

/-- The meaning of all keys. -/
def keys? (members : List (List UInt8 × Json)) : Option (List (String × Json)) :=
  members.mapM fun (key, j) => do return (← unescape? key, j)

/-- The fields of a record that are there. -/
def fields? (names : List String) : Json → Option (List (String × Json))
  | array items => if items.length ≤ names.length then some (names.zip items) else none
  | object members => do
    let known := (← keys? members).filter (·.1 ∈ names)
    if (known.map (·.1)).Nodup then some known else none
  | _ => none

/-- A text field, empty if it is missing. -/
def textField? (fields : List (String × Json)) (name : String) : Option String :=
  match fields.lookup name with
  | none => some ""
  | some j => j.text?

/-- A text field that may also be missing or `null`. -/
def optionalTextField? (fields : List (String × Json)) (name : String) : Option (Option String) :=
  match fields.lookup name with
  | none | some null => some none
  | some j => some <$> j.text?

/-- A whole number of no more than eight bytes. -/
def word? : Json → Option Nat
  | number text =>
    if text.all fun b => 48 ≤ b && b ≤ 57 then
      let n := text.foldl (fun n b => n * 10 + (b.toNat - 48)) 0
      if n < capacity 8 then some n else none
    else none
  | _ => none

end VaultAgent.Json
