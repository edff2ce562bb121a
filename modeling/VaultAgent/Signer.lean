import VaultAgent.Action
import VaultAgent.Ssh.Signature
import VaultAgent.Vault

/-!
# Signing through a vault

A signer is a public key together with the secret that the vault signs with. It labels the vault's
bytes with the one algorithm that fits the key, or for RSA with the digest that was asked for, and
gives them out only if they have the form of such a signature.
-/

namespace VaultAgent

/-- Why a keyring gives nothing. -/
inductive KeyringError
  | keyNotFound
  /-- The vault gave nothing. -/
  | delegation (error : VaultError)
  | invalidSignature (fault : Ssh.WireError)
  /-- An RSA signature over SHA-1 was asked for. -/
  | unsupportedAlgorithm
  | confirmationUnavailable
  /-- The keyring was left half changed. -/
  | poisoned
  /-- The clock does not go on for as long as an entry is to live. The call breaks off. -/
  | beyondClock
  deriving DecidableEq, Repr

def KeyringError.message : KeyringError → String
  | keyNotFound => "key not found"
  | delegation e => s!"signing delegation failed: {e.message}"
  | invalidSignature fault => s!"vault returned an unusable signature: {fault.message}"
  | unsupportedAlgorithm =>
    "unsupported signature algorithm: ssh-rsa (SHA-1); request rsa-sha2-256 or rsa-sha2-512"
  | confirmationUnavailable =>
    "key requires confirmation before use, which this agent cannot provide"
  | poisoned => "keyring lock poisoned"
  | beyondClock => "overflow when adding duration to instant"

structure Signer where
  key : Ssh.PublicKey
  /-- The name of the secret in the vault. -/
  secretName : String
  /-- The group of the secret in the vault, empty for one without a parent. -/
  group : String
  /-- The vault is waited for no longer than this. -/
  timeout : Duration
  deriving DecidableEq, Repr

namespace Signer

/-- The bit of the flags that asks for SHA-256. -/
def sha256Bit : Nat := 1

/-- The bit of the flags that asks for SHA-512. -/
def sha512Bit : Nat := 2

/-- The algorithm of a signature. The flags count for RSA keys only, and SHA-512 comes first. -/
def algorithm (key : Ssh.PublicKey) (flags : Nat) : Except KeyringError Ssh.Algorithm :=
  match key.algorithm with
  | .rsa _ =>
    if flags.testBit sha512Bit then .ok (.rsa (some .sha512))
    else if flags.testBit sha256Bit then .ok (.rsa (some .sha256))
    else .error .unsupportedAlgorithm
  | other => .ok other

/-- Has the vault sign. The state is the calls made before; a call counts from when it is made. -/
def sign (vault : Vault) (s : Signer) (data : List UInt8) (flags : Nat) :
    Action KeyringError (List VaultCall) Ssh.Signature := do
  let algorithm ← Action.ofExcept id (algorithm s.key flags)
  let before ← get
  set (before ++ [.sign s.secretName s.group data])
  let answer := vault.sign before s.secretName s.group data
  let bytes ← Action.ofExcept .delegation (answer.within s.timeout)
  Action.ofExcept .invalidSignature (Ssh.Signature.ofBytes algorithm bytes)

end Signer

end VaultAgent
