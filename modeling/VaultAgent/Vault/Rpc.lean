import VaultAgent.Base64
import VaultAgent.Disk
import VaultAgent.Json.Parser
import VaultAgent.Json.Printer
import VaultAgent.Json.Record
import VaultAgent.Path
import VaultAgent.Text.Blank
import VaultAgent.Vault

/-!
# Calling a vault over a socket

Each call is a connection of its own. It sends one line, a JSON object with the number of the call,
and takes one line back. An answer counts only if it bears the number of the call; then an error
text in it that is not empty refuses the call, even if there is a result too.
-/

namespace VaultAgent.Rpc

/-- What comes of a connection. -/
inductive Contact
  | failed (error : OsError)
  /-- The request cannot be written, as when the vault closes without reading it. -/
  | unsent (error : OsError)
  /-- The bytes that the vault sends before it closes. -/
  | answered (bytes : List UInt8)
  /-- The bytes that come before reading fails. -/
  | broken (bytes : List UInt8) (error : OsError)
  deriving DecidableEq, Repr

/-- Why a call gives nothing. -/
inductive Fault
  | connect (socket : Path) (error : OsError)
  | unsent (error : OsError)
  | broken (error : OsError)
  | notText (fault : Utf8.Invalid)
  | silent
  | notResponse
  | otherNumber (answered asked : Nat)
  | refused (why : String)
  /-- There is neither a result nor an error. -/
  | void
  /-- The signature is not base64. -/
  | notBase64 (fault : Base64.DecodeError)
  deriving DecidableEq, Repr

def Fault.toVaultError : Fault → VaultError
  | connect socket e => .unavailable s!"connect {socket.text}: {e.message}"
  | unsent e => .unavailable s!"write request: {e.message}"
  | broken e => .unavailable s!"read response: {e.message}"
  | notText fault => .unavailable s!"read response: {fault.message}"
  | silent => .unavailable "vault closed the connection without answering"
  | notResponse => .protocol "decode response: <json>"
  | otherNumber answered asked =>
    .protocol s!"response id {answered} does not match request id {asked}"
  | refused why => .denied why
  | void => .protocol "response has neither result nor error"
  | notBase64 fault => .protocol s!"signature is not base64: {fault.message}"

/-! ## Requests -/

/-- The number of a call, the first being 1. Numbers have eight bytes and start
again when these are used up. -/
def number (call : Nat) : Nat :=
  call % capacity 8

def method : VaultCall → String
  | .exportKey _ => "Vault.ExportPublicData"
  | .sign .. => "Vault.Sign"

def params : VaultCall → Json
  | .exportKey name => .object [(Json.escape "name", .ofText name)]
  | .sign name group challenge => .object [
      (Json.escape "name", .ofText name),
      (Json.escape "group", .ofText group),
      (Json.escape "content", .ofText (Base64.text challenge))]

def request (number : Nat) (call : VaultCall) : Json :=
  .object [
    (Json.escape "id", .number (Json.ascii (toString number))),
    (Json.escape "method", .ofText (method call)),
    (Json.escape "params", .array [params call])]

/-- The line that is sent. -/
def requestLine (number : Nat) (call : VaultCall) : List UInt8 :=
  Json.compact (request number call) ++ [10]

/-! ## Responses -/

structure Response where
  number : Nat
  result? : Option String
  error? : Option String
  deriving DecidableEq, Repr

def Response.ofJson? (j : Json) : Option Response := do
  let fields ← j.fields? ["id", "result", "error"]
  return {
    number := ← Json.word? (← fields.lookup "id")
    result? := ← Json.optionalTextField? fields "result"
    error? := ← Json.optionalTextField? fields "error" }

/-- The bytes up to the end of the first line. -/
def firstLine (bytes : List UInt8) : List UInt8 :=
  bytes.takeWhile (· ≠ 10) ++ (bytes.dropWhile (· ≠ 10)).take 1

/-- The result in a line. -/
def result (number : Nat) (line : List UInt8) : Except Fault String := do
  if line = [] then throw .silent
  match Utf8.decode line with
  | .error fault => throw (.notText fault)
  | .ok cs =>
    match Json.ofBytes? (Utf8.encode (Blank.trimEnd cs)) >>= Response.ofJson? with
    | none => throw .notResponse
    | some response =>
      if response.number ≠ number then throw (.otherNumber response.number number)
      match response.error?.filter (· ≠ "") with
      | some why => throw (.refused why)
      | none =>
        match response.result? with
        | none => throw .void
        | some result => return result

/-! ## Calls -/

/-- The result of the call with this number on a socket. What comes behind the first line is not read,
nor is it known then whether it can be. -/
def call (socket : Path) (number : Nat) : Contact → Except Fault String
  | .failed e => .error (.connect socket e)
  | .unsent e => .error (.unsent e)
  | .answered bytes => result number (firstLine bytes)
  | .broken bytes e => if 10 ∈ bytes then result number (firstLine bytes) else .error (.broken e)

/-- The exported key, as the vault gives it. -/
def exportKey (socket : Path) (number : Nat) (contact : Contact) : Except Fault String :=
  call socket number contact

/-- The signature, which the vault gives in base64, perhaps with blanks around it. -/
def sign (socket : Path) (number : Nat) (contact : Contact) : Except Fault (List UInt8) := do
  let text ← call socket number contact
  match Base64.decode (Utf8.encode (Blank.trim text.toList)) with
  | .ok bytes => return bytes
  | .error fault => throw (.notBase64 fault)

/-- The vault behind a socket. `contact` is what comes of a connection, by the calls made before and
the line that is sent. -/
def vault (socket : Path) (contact : List VaultCall → List UInt8 → Contact) : Vault where
  exportKey before name :=
    let n := number (before.length + 1)
    let c := contact before (requestLine n (.exportKey name))
    ⟨⟨0⟩, (exportKey socket n c).mapError Fault.toVaultError⟩
  sign before name group challenge :=
    let n := number (before.length + 1)
    let c := contact before (requestLine n (.sign name group challenge))
    ⟨⟨0⟩, (sign socket n c).mapError Fault.toVaultError⟩

end VaultAgent.Rpc
