import VaultAgent.Json.Printer
import VaultAgent.Json.Parser
import VaultAgent.Json.Record
import VaultAgent.NameMap
import VaultAgent.Secret

/-!
# The stored document

A record holds a secret as it is stored: its public data in base64 and its parent by name. The
document is one map from names to records, written as JSON with an item on each line.
-/

namespace VaultAgent.Store

structure Record where
  fileId : String
  capId : String
  secretType : String
  /-- Base64. -/
  publicData : String
  /-- The name of the parent, empty for a root. -/
  group : String
  deriving DecidableEq, Repr

abbrev Records := NameMap Record

namespace Record

/-- The record of a secret. Of its groups it keeps the name of the parent only. -/
def ofSecret (s : Secret) : Record where
  fileId := s.fileId
  capId := s.capId
  secretType := s.secretType
  publicData := Base64.text s.publicData
  group := s.vaultGroup

def publicBytes (r : Record) : Except Base64.DecodeError (List UInt8) :=
  Base64.ofText r.publicData

/-- The name of the parent, if there is one. -/
def groupName? (r : Record) : Option String :=
  if r.group = "" then none else some r.group

/-! ## JSON -/

def fieldNames : List String :=
  ["FileId", "CapId", "SecretType", "PublicData", "Group"]

def toJson (r : Record) : Json :=
  .object [
    (Json.escape "FileId", .ofText r.fileId),
    (Json.escape "CapId", .ofText r.capId),
    (Json.escape "SecretType", .ofText r.secretType),
    (Json.escape "PublicData", .ofText r.publicData),
    (Json.escape "Group", .ofText r.group)]

def ofJson? (j : Json) : Option Record := do
  let fields ← j.fields? fieldNames
  return {
    fileId := ← Json.textField? fields "FileId"
    capId := ← Json.textField? fields "CapId"
    secretType := ← Json.textField? fields "SecretType"
    publicData := ← Json.textField? fields "PublicData"
    group := ← Json.textField? fields "Group" }

end Record

namespace Records

def toJson (m : Records) : Json :=
  .object (m.toList.map fun (name, r) => (Json.escape name, r.toJson))

/-- Of two records with the same name the later one counts. -/
def ofJson? : Json → Option Records
  | .object members => do
    let named ← Json.keys? members
    NameMap.ofList <$> named.mapM fun (name, j) => do return (name, ← Record.ofJson? j)
  | _ => none

/-- The text of the document. -/
def toDocument (m : Records) : List UInt8 :=
  Json.pretty (.object [(Json.escape "Secrets", toJson m)])

/-- Reads a document. One without records is empty. -/
def ofDocument? (bytes : List UInt8) : Option Records := do
  let fields ← (← Json.ofBytes? bytes).fields? ["Secrets"]
  match fields.lookup "Secrets" with
  | none => return NameMap.empty
  | some j => ofJson? j

end Records

end VaultAgent.Store
