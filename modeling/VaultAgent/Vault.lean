import VaultAgent.Duration

/-!
# Vaults

A vault keeps the private keys. It does two things for an agent: it exports the public half of a
key, and it signs. A vault here is what it answers, which may depend on all calls made before, and
how long it takes.
-/

namespace VaultAgent

/-- Why a vault gives nothing. -/
inductive VaultError
  | unavailable (why : String)
  | denied (why : String)
  | protocol (why : String)
  /-- No answer came within this time. -/
  | timeout (limit : Duration)
  deriving DecidableEq, Repr

def VaultError.message : VaultError → String
  | unavailable why => s!"vault unavailable: {why}"
  | denied why => s!"vault denied request: {why}"
  | protocol why => s!"malformed vault response: {why}"
  | timeout limit => s!"vault did not answer within {limit.text}"

inductive VaultCall
  | exportKey (name : String)
  /-- The group is empty for a secret without a parent. -/
  | sign (name group : String) (challenge : List UInt8)
  deriving DecidableEq, Repr

/-- An answer and the time that it takes. -/
structure Answer (α : Type) where
  delay : Duration
  result : Except VaultError α

/-- What comes of an answer that is waited for no longer than `limit`. -/
def Answer.within {α : Type} (a : Answer α) (limit : Duration) : Except VaultError α :=
  if a.delay.nanoseconds > limit.nanoseconds then .error (.timeout limit) else a.result

/-- The answers of a vault, by the calls made before. -/
structure Vault where
  exportKey : List VaultCall → (name : String) → Answer String
  sign : List VaultCall → (name group : String) → (challenge : List UInt8) → Answer (List UInt8)

end VaultAgent
