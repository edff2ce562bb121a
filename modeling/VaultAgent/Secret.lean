import VaultAgent.Ssh.KeyLine

/-!
# Secrets

What an agent knows of a key that a vault holds: its name, the handles under which the vault knows
it, its type, the public half, and the groups that it stands in. Nothing here is secret.
-/

namespace VaultAgent

/-- A secret without its groups. -/
structure Member where
  name : String
  /-- The handle of the stored secret in the vault. -/
  fileId : String
  /-- The handle of the right to use it. -/
  capId : String
  /-- The family of the key. -/
  secretType : String
  publicData : List UInt8
  deriving DecidableEq, Repr

structure Secret extends Member where
  /-- The groups, from the direct parent up to the root. -/
  ancestors : List Member
  deriving DecidableEq, Repr

namespace Secret

/-- The name of the direct parent, if there is one. -/
def groupName? (s : Secret) : Option String :=
  s.ancestors.head?.map (·.name)

/-- The group under which the vault knows the secret: empty for one without a parent. -/
def vaultGroup (s : Secret) : String :=
  s.groupName?.getD ""

/-- The name, the type, the parent and the fingerprint, with a tab between them. A dash stands for a
parent or a fingerprint that is missing. -/
def summary (s : Secret) : String :=
  let fingerprint := match Ssh.PublicKey.ofLineBytes s.publicData with
    | .ok key => key.fingerprint
    | .error _ => "-"
  s.name ++ "\t" ++ s.secretType ++ "\t" ++ s.groupName?.getD "-" ++ "\t" ++ fingerprint

end Secret

end VaultAgent
