import VaultAgent.Ssh.PrivateKey

/-!
# Requests of the agent protocol

What a client can ask for. A request is a byte that says its kind and the fields of that kind.
Private keys are read as far as it takes to know that they are well formed, and not kept.
-/

namespace VaultAgent.Protocol

/-- Why bytes are not a request. -/
inductive Fault
  /-- A field is at fault. -/
  | encoding (fault : Ssh.WireError)
  /-- A key is at fault. -/
  | key (fault : Ssh.WireError)
  | unsupported (kind : Nat)
  deriving DecidableEq, Repr

def Fault.message : Fault → String
  | encoding fault => s!"SSH encoding error: {fault.message}"
  | key fault => s!"SSH key error: {fault.message}"
  | unsupported kind => s!"Command not supported ({kind})"

inductive Request
  | identities
  | sign (key : Ssh.PublicKey) (data : List UInt8) (flags : Nat)
  | addIdentity
  | addConstrainedIdentity
  | remove (key : Ssh.PublicKey)
  | removeAll
  | addCard (card pin : String)
  | addConstrainedCard (card pin : String)
  | removeCard (card pin : String)
  | lock (passphrase : String)
  | unlock (passphrase : String)
  | extension (name : String) (details : List UInt8)
  deriving DecidableEq, Repr

/-! ## Reading -/

abbrev RequestDecoder := StateT Ssh.Reader (Except Fault)

/-- Reads a value and says of what kind its faults are. -/
def reading {α : Type} (cause : Ssh.WireError → Fault) (value : Ssh.Decoder α) :
    RequestDecoder α := fun r =>
  (value r).mapError cause

/-- Reads a field. -/
def field {α : Type} (value : Ssh.Decoder α) : RequestDecoder α :=
  reading .encoding value

/-- Reads a length and then a value that may take no more than that many bytes. -/
def within {α : Type} (value : RequestDecoder α) : RequestDecoder α := do
  let n ← field Ssh.Decoder.length
  modify fun r => { r with limits := n :: r.limits }
  let a ← value
  modify fun r => { r with limits := r.limits.tail }
  return a

/-- Reads a key with its length in front. -/
def key : RequestDecoder Ssh.PublicKey :=
  reading .key (Ssh.Decoder.within Ssh.Decoder.publicKey)

/-- A private key, perhaps with a certificate, and a comment. -/
def credential : RequestDecoder Unit := do
  let name ← field Ssh.Decoder.text
  match Ssh.Algorithm.ofCertificateName? name with
  | some algorithm =>
    within (reading .key Ssh.Decoder.certificate)
    reading .key (Ssh.Decoder.certifiedKey algorithm)
  | none =>
    match Ssh.Algorithm.ofName? name with
    | none => throw (.encoding (.label name))
    | some algorithm => reading .key (Ssh.Decoder.privateKey algorithm)
  let _comment ← field Ssh.Decoder.text

/-- A lifetime, the wish for confirmation, or an extension. -/
def constraint : RequestDecoder Unit := do
  let kind ← field (Ssh.Decoder.number 1)
  if kind = 1 then
    let _seconds ← field (Ssh.Decoder.number 4)
  else if kind = 2 then
    return
  else if kind = 255 then
    let _name ← field Ssh.Decoder.text
    let _details ← field Ssh.Decoder.block
  else throw (.key .unknownAlgorithm)

/-- Constraints until nothing is left. Each takes a byte at least. -/
def constraints : RequestDecoder Unit := do
  go (← field Ssh.Decoder.remaining)
where
  go : Nat → RequestDecoder Unit
    | 0 => return
    | n + 1 => do
      if ← field Ssh.Decoder.isFinished then return
      constraint
      go n

/-- A kind and its fields. -/
def request : RequestDecoder Request := do
  let kind ← field (Ssh.Decoder.number 1)
  match kind with
  | 11 => return .identities
  | 13 => return .sign (← key) (← field Ssh.Decoder.block) (← field (Ssh.Decoder.number 4))
  | 17 => do credential; return .addIdentity
  | 18 => return .remove (← key)
  | 19 => return .removeAll
  | 20 => return .addCard (← field Ssh.Decoder.text) (← field Ssh.Decoder.text)
  | 21 => return .removeCard (← field Ssh.Decoder.text) (← field Ssh.Decoder.text)
  | 22 => return .lock (← field Ssh.Decoder.text)
  | 23 => return .unlock (← field Ssh.Decoder.text)
  | 25 => do credential; constraints; return .addConstrainedIdentity
  | 26 => do
    let card ← field Ssh.Decoder.text
    let pin ← field Ssh.Decoder.text
    constraints
    return .addConstrainedCard card pin
  | 27 => return .extension (← field Ssh.Decoder.text) (← field Ssh.Decoder.rest)
  | _ => throw (.unsupported kind)

/-- Reads a request from the beginning of the bytes. -/
def Request.ofBytes (bytes : List UInt8) : Except Fault Request :=
  request.run' ⟨.plain bytes, []⟩

end VaultAgent.Protocol
