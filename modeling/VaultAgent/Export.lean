import VaultAgent.Json.Parser
import VaultAgent.Json.Record
import VaultAgent.Secret
import VaultAgent.Text.Quoted

/-!
# Keys exported by a vault

A vault answers with base64 text around a JSON record of a secret, with its groups nested in it and
the key in an encoding of its own. `Secret.ofExport` turns that into a secret whose public data is a
key line, the form in which keys are kept.
-/

namespace VaultAgent

/-- Why an exported key is refused. -/
inductive ImportError
  | encoding (fault : Base64.DecodeError)
  | json
  | unsupportedType (secretType : String)
  | invalidPoint (fault : Ssh.WireError)
  /-- An Ed25519 key that is not 32 bytes long. -/
  | ed25519Length (length : Nat)
  deriving DecidableEq, Repr

def ImportError.message : ImportError → String
  | encoding fault => s!"exported data is not base64: {fault.message}"
  | json => "exported secret is not valid JSON: <json>"
  | unsupportedType t => s!"unsupported secret type for SSH: {Quoted.quote t}"
  | invalidPoint fault => s!"invalid public key material: SEC1 point: {fault.message}"
  | ed25519Length n => s!"invalid public key material: ed25519 key must be 32 bytes, got {n}"

namespace Export

/-! ## The record -/

/-- A secret or a group as the vault writes it. -/
structure Entry where
  name : String
  fileId : String
  capId : String
  secretType : String
  /-- Base64 of the vault's encoding of the key. -/
  publicData : String
  deriving DecidableEq, Repr

/-- An entry and the groups it stands in, the direct parent first. -/
structure Record extends Entry where
  ancestors : List Entry
  deriving DecidableEq, Repr

def fieldNames : List String :=
  ["Name", "FileId", "CapId", "SecretType", "PublicData", "Group"]

/-- Reads a record that stands in others, of which `depth` more may be nested. -/
def Record.ofJson? : Nat → Json → Option Record
  | 0, _ => none
  | depth + 1, j => do
    let fields ← j.fields? fieldNames
    let entry : Entry :=
      { name := ← Json.textField? fields "Name"
        fileId := ← Json.textField? fields "FileId"
        capId := ← Json.textField? fields "CapId"
        secretType := ← Json.textField? fields "SecretType"
        publicData := ← Json.textField? fields "PublicData" }
    match fields.lookup "Group" with
    | none | some .null => return ⟨entry, []⟩
    | some group =>
      let parent ← ofJson? depth group
      return ⟨entry, parent.toEntry :: parent.ancestors⟩

/-- Reads a whole document. -/
def Record.ofBytes? (bytes : List UInt8) : Option Record := do
  Record.ofJson? Json.maxDepth (← Json.ofBytes? bytes)

/-! ## The key -/

/-- The names of types whose keys are curve points. -/
def ecdsaTypes : List String :=
  ["ecdsa", "ecdsa-p256", "ecdsa_p256", "p256", "ecdsa-sha2-nistp256"]

def ed25519Types : List String :=
  ["ed25519", "ssh-ed25519"]

/-- The text with ASCII letters made small. -/
def lower (s : String) : String :=
  String.ofList (s.toList.map Char.toLower)

/-- The key that the vault writes as `raw` for this type of secret. -/
def publicKey (secretType : String) (raw : List UInt8) : Except ImportError Ssh.PublicKey :=
  if lower secretType ∈ ecdsaTypes then
    (Ssh.PublicKey.ofPoint raw).mapError .invalidPoint
  else if lower secretType ∈ ed25519Types then
    if raw.length = Ssh.Decoder.ed25519Length then .ok (.ed25519 raw)
    else .error (.ed25519Length raw.length)
  else .error (.unsupportedType secretType)

/-! ## The secret -/

def decodeBase64 (s : String) : Except ImportError (List UInt8) :=
  (Base64.ofText s).mapError .encoding

/-- A group is taken over as it is, its public data decoded. -/
def Entry.toMember (e : Entry) : Except ImportError Member := do
  let publicData ← decodeBase64 e.publicData
  return {
    name := e.name
    fileId := e.fileId
    capId := e.capId
    secretType := e.secretType
    publicData }

/-- The secret of a record. An empty name gives way to the one that was asked for. -/
def Record.toSecret (r : Record) (fallbackName : String) : Except ImportError Secret := do
  let raw ← decodeBase64 r.publicData
  let key ← publicKey r.secretType raw
  let ancestors ← r.ancestors.mapM Entry.toMember
  return {
    name := if r.name = "" then fallbackName else r.name
    fileId := r.fileId
    capId := r.capId
    secretType := r.secretType
    publicData := Utf8.bytes key.line
    ancestors }

end Export

/-- Reads what a vault exports under a name. -/
def Secret.ofExport (encoded fallbackName : String) : Except ImportError Secret := do
  let document ← (Base64.decode (Utf8.encode (Blank.trim encoded.toList))).mapError .encoding
  match Export.Record.ofBytes? document with
  | none => throw .json
  | some record => record.toSecret fallbackName

end VaultAgent
