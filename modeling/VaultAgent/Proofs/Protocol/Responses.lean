import VaultAgent.Protocol.Response
import Mathlib.Tactic.Common

/-!
# What a client reads

A client takes messages off the bytes that it is sent, each behind its length in four bytes. The first
byte of a message says its kind; `Told.ofMessage?` reads the fields of that kind. What was answered is
what it reads, answer by answer, as long as no frame is too long for its length (`tells_frames`).
-/

namespace VaultAgent.Protocol

/-- What a client is told. Keys, comments and signatures are in their bytes. -/
inductive Told
  | failure
  | success
  | identities (all : List (List UInt8 × List UInt8))
  | signature (bytes : List UInt8)
  deriving DecidableEq

def Response.told : Response → Told
  | failure => .failure
  | success => .success
  | identities all => .identities (all.map fun i => (i.key.toBytes, Utf8.bytes i.comment))
  | signature s => .signature s.toBytes

/-! ## Reading -/

/-- Takes bytes off that stand behind their length. Gives them and what is left. -/
def takeBlock? (bytes : List UInt8) : Option (List UInt8 × List UInt8) :=
  let length := beValue (bytes.take 4)
  if bytes.length < 4 + length then none
  else some ((bytes.drop 4).take length, bytes.drop (4 + length))

/-- Takes so many keys off, each with its comment. -/
def takeIdentities? : Nat → List UInt8 → Option (List (List UInt8 × List UInt8) × List UInt8)
  | 0, bytes => some ([], bytes)
  | n + 1, bytes => do
    let (key, bytes) ← takeBlock? bytes
    let (comment, bytes) ← takeBlock? bytes
    let (all, bytes) ← takeIdentities? n bytes
    return ((key, comment) :: all, bytes)

/-- What a message tells: a kind, and fields that take all of the rest. -/
def Told.ofMessage? : List UInt8 → Option Told
  | [5] => some .failure
  | [6] => some .success
  | 12 :: fields =>
    match takeIdentities? (beValue (fields.take 4)) (fields.drop 4) with
    | some (all, []) => some (.identities all)
    | _ => none
  | 14 :: fields =>
    match takeBlock? fields with
    | some (bytes, []) => some (.signature bytes)
    | _ => none
  | _ => none

/-- The bytes are messages one behind the other that tell this. -/
inductive Tells : List UInt8 → List Told → Prop
  | nil : Tells [] []
  | cons {bytes message rest : List UInt8} {told : Told} {all : List Told}
    (hb : takeBlock? bytes = some (message, rest)) (hm : Told.ofMessage? message = some told)
    (h : Tells rest all) : Tells bytes (told :: all)

/-! ## Reading what was written -/

variable {bytes rest : List UInt8}

theorem takeBlock?_block (h : bytes.length < capacity 4) (rest : List UInt8) :
    takeBlock? (Ssh.block bytes ++ rest) = some (bytes, rest) := by
  have hword : (Ssh.word bytes.length).length = 4 := beBytes_length 4 bytes.length
  have htake : (Ssh.block bytes ++ rest).take 4 = Ssh.word bytes.length := by
    rw [Ssh.block, List.append_assoc, List.take_left' hword]
  have hdrop : (Ssh.block bytes ++ rest).drop 4 = bytes ++ rest := by
    rw [Ssh.block, List.append_assoc, List.drop_left' hword]
  have hvalue : beValue (Ssh.word bytes.length) = bytes.length := by
    rw [Ssh.word, beValue_beBytes, Nat.mod_eq_of_lt h]
  have hlen : ¬ (Ssh.block bytes ++ rest).length < 4 + bytes.length := by
    simp only [Ssh.block, List.length_append, hword]
    omega
  rw [takeBlock?, htake, hvalue, if_neg hlen, ← List.drop_drop, hdrop, List.take_left, List.drop_left]

theorem length_le_block (bytes : List UInt8) : bytes.length ≤ (Ssh.block bytes).length := by
  simp [Ssh.block]

theorem takeIdentities?_identityBytes {all : List Identity}
    (h : (all.flatMap Response.identityBytes).length < capacity 4) (rest : List UInt8) :
    takeIdentities? all.length (all.flatMap Response.identityBytes ++ rest) =
      some (all.map fun i => (i.key.toBytes, Utf8.bytes i.comment), rest) := by
  induction all with
  | nil => rfl
  | cons i all ih =>
    simp only [List.flatMap_cons, Response.identityBytes, Ssh.textBlock, List.length_append] at h ⊢
    have hkey := length_le_block i.key.toBytes
    have hcomment := length_le_block (Utf8.bytes i.comment)
    rw [List.length_cons, takeIdentities?, List.append_assoc, List.append_assoc,
      takeBlock?_block (by omega)]
    simp only [Option.bind_eq_bind, Option.bind_some]
    rw [takeBlock?_block (by omega)]
    simp only [Option.bind_some]
    rw [ih (by omega)]
    rfl

theorem length_le_identityBytes (all : List Identity) :
    all.length ≤ (all.flatMap Response.identityBytes).length := by
  induction all with
  | nil => exact Nat.le_refl 0
  | cons i all ih =>
    have hword : (Ssh.word i.key.toBytes.length).length = 4 := beBytes_length 4 _
    simp only [List.flatMap_cons, List.length_cons, List.length_append, Response.identityBytes,
      Ssh.block, hword]
    omega

namespace Response

/-- The length of the frame can be written in four bytes. -/
def Fits (r : Response) : Prop :=
  (r.kind :: r.body).length < capacity 4

theorem ofMessage?_told {r : Response} (h : r.Fits) :
    Told.ofMessage? (r.kind :: r.body) = some r.told := by
  cases r with
  | failure => rfl
  | success => rfl
  | identities all =>
    have hword : (Ssh.word all.length).length = 4 := beBytes_length 4 all.length
    simp only [Fits, body, List.length_cons, List.length_append, hword] at h
    have hall := length_le_identityBytes all
    have hcount : beValue (Ssh.word all.length) = all.length := by
      rw [Ssh.word, beValue_beBytes, Nat.mod_eq_of_lt (by omega)]
    have hfits : (all.flatMap identityBytes).length < capacity 4 := by omega
    have hread := takeIdentities?_identityBytes hfits []
    rw [List.append_nil] at hread
    simp only [kind, body, Told.ofMessage?, List.take_left' hword, List.drop_left' hword, hcount,
      hread, told]
  | signature s =>
    have hlen := length_le_block s.toBytes
    simp only [Fits, body, List.length_cons] at h
    have hfits : s.toBytes.length < capacity 4 := by omega
    have hread := takeBlock?_block hfits []
    rw [List.append_nil] at hread
    simp only [kind, body, Told.ofMessage?, hread, told]

end Response

theorem tells_frames {answers : List Response} (h : ∀ a ∈ answers, a.Fits) :
    Tells (answers.flatMap Response.frame) (answers.map Response.told) := by
  induction answers with
  | nil => exact .nil
  | cons a answers ih =>
    obtain ⟨ha, hrest⟩ := List.forall_mem_cons.1 h
    rw [List.flatMap_cons, List.map_cons]
    exact .cons (takeBlock?_block ha _) (Response.ofMessage?_told ha) (ih hrest)

end VaultAgent.Protocol
