import VaultAgent.NameMap
import VaultAgent.Signer

/-!
# The keyring

The keys that an agent serves, with a comment and perhaps a time to live. Entries are found by the
fingerprint of their key, but count only if the key itself is the same. An entry is live until its
time has come; one that is not may linger in the ring until the next is added, and no answer shows
it. Times are points on one clock, in nanoseconds, which does not go on for ever. Slots stand in a table
that gives them out in no particular order.
-/

namespace VaultAgent

structure Entry where
  signer : Signer
  comment : String
  /-- The entry is dropped so long after it was added; never if absent. -/
  lifetime : Option Duration
  /-- Whether the owner has to agree to each use. -/
  confirm : Bool
  deriving DecidableEq, Repr

def Entry.key (e : Entry) : Ssh.PublicKey :=
  e.signer.key

/-- What a client is told of an entry. -/
structure Identity where
  key : Ssh.PublicKey
  comment : String
  deriving DecidableEq, Repr

structure Slot where
  entry : Entry
  /-- When the entry is dropped. -/
  expiresAt : Option Nat
  deriving DecidableEq, Repr

def Slot.isLive (now : Nat) (s : Slot) : Bool :=
  s.expiresAt.all (now < ·)

/-- In which order a table gives its slots out. It need not be the same one at another time. -/
structure Slot.Order where
  arrange : Nat → List Slot → List Slot
  perm : ∀ now slots, (arrange now slots).Perm slots

/-- In the order of the fingerprints. -/
def Slot.Order.byName : Slot.Order where
  arrange _ slots := slots
  perm _ slots := .refl slots

structure Keyring where
  /-- By what the slots are found. -/
  fingerprintOf : Ssh.PublicKey → String
  slots : NameMap Slot
  order : Slot.Order
  /-- Whether a change was broken off. Then only `size` still answers. -/
  poisoned : Bool

namespace Keyring

abbrev KeyringAction (α : Type) := Action KeyringError Keyring α

def empty : Keyring where
  fingerprintOf := Ssh.PublicKey.fingerprint
  slots := NameMap.empty
  order := .byName
  poisoned := false

/-- Refuses a keyring that was left half changed. -/
def checkWhole (k : Keyring) : Except KeyringError Unit :=
  if k.poisoned then .error .poisoned else .ok ()

/-- The live slots. -/
def liveSlots (k : Keyring) (now : Nat) : List Slot :=
  (k.slots.toList.map (·.2)).filter (·.isLive now)

/-! ## Answers -/

/-- The live entry of exactly this key. -/
def find? (k : Keyring) (now : Nat) (key : Ssh.PublicKey) : Option Entry :=
  match k.slots.find? (k.fingerprintOf key) with
  | some slot => if slot.isLive now ∧ slot.entry.key = key then some slot.entry else none
  | none => none

/-- How many entries are live. -/
def size (k : Keyring) (now : Nat) : Nat :=
  (k.liveSlots now).length

def isEmpty (k : Keyring) (now : Nat) : Bool :=
  k.size now = 0

def contains (k : Keyring) (now : Nat) (key : Ssh.PublicKey) : Bool :=
  !k.poisoned && (k.find? now key).isSome

/-- The live keys in ascending order of their comments. Those with one comment come in the order of the
table. -/
def identities (k : Keyring) (now : Nat) : Except KeyringError (List Identity) := do
  k.checkWhole
  let slots := k.order.arrange now (k.liveSlots now)
  let all := slots.map fun slot => Identity.mk slot.entry.key slot.entry.comment
  return all.mergeSort (·.comment ≤ ·.comment)

/-- Signs with the entry of exactly this key. The state is the calls made to the vault. -/
def sign (k : Keyring) (now : Nat) (vault : Vault) (key : Ssh.PublicKey) (data : List UInt8)
    (flags : Nat) : Action KeyringError (List VaultCall) Ssh.Signature := do
  Action.ofExcept id k.checkWhole
  match k.find? now key with
  | none => throw .keyNotFound
  | some e =>
    if e.confirm then throw .confirmationUnavailable
    e.signer.sign vault data flags

/-! ## Changes -/

/-- The clock counts whole seconds in 63 bits, so it shows no time from here on. -/
def clockEnd : Nat := (1 <<< 63) * 1000000000

/-- When an entry is dropped whose lifetime counts from `start`. -/
def deadline (start : Nat) : Option Duration → Except KeyringError (Option Nat)
  | none => .ok none
  | some d =>
    if start + d.nanoseconds < clockEnd then .ok (some (start + d.nanoseconds))
    else .error .beyondClock

/-- Adds an entry instead of one for the same key. Tells whether there was one. The clock is read
twice: at `start`, from which the lifetime counts, and at `now`, when expired entries go. -/
def addFrom (start now : Nat) (e : Entry) : KeyringAction Bool := do
  let expiresAt ← Action.ofExcept id (deadline start e.lifetime)
  let k ← get
  Action.ofExcept id k.checkWhole
  let name := k.fingerprintOf e.key
  let live := k.slots.filter fun _ slot => slot.isLive now
  set { k with slots := live.insert name ⟨e, expiresAt⟩ }
  return live.contains name

def add (now : Nat) (e : Entry) : KeyringAction Bool :=
  addFrom now now e

/-- Drops the entry of a key. Tells whether there was one, live or not. -/
def remove (key : Ssh.PublicKey) : KeyringAction Bool := do
  let k ← get
  Action.ofExcept id k.checkWhole
  let name := k.fingerprintOf key
  match k.slots.find? name with
  | none => return false
  | some slot =>
    if slot.entry.key ≠ key then return false
    set { k with slots := k.slots.erase name }
    return true

/-- Drops all entries. Tells how many were live. -/
def removeAll (now : Nat) : KeyringAction Nat := do
  let k ← get
  Action.ofExcept id k.checkWhole
  set { k with slots := NameMap.empty }
  return k.size now

end Keyring

end VaultAgent
