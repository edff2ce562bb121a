import VaultAgent.Keyring

/-!
# Responses of the agent protocol

What a client is answered: a frame of its length in four bytes, a byte that says the kind, and the
fields of that kind.
-/

namespace VaultAgent.Protocol

inductive Response
  | failure
  | success
  | identities (all : List Identity)
  | signature (signature : Ssh.Signature)
  deriving DecidableEq, Repr

namespace Response

def kind : Response → UInt8
  | failure => 5
  | success => 6
  | identities _ => 12
  | signature _ => 14

def identityBytes (i : Identity) : List UInt8 :=
  Ssh.block i.key.toBytes ++ Ssh.textBlock i.comment

def body : Response → List UInt8
  | failure | success => []
  | identities all => Ssh.word all.length ++ all.flatMap identityBytes
  | signature s => Ssh.block s.toBytes

/-- The frame that is sent. -/
def frame (r : Response) : List UInt8 :=
  Ssh.block (r.kind :: r.body)

end Response

end VaultAgent.Protocol
