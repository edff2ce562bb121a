import VaultAgent.Export
import VaultAgent.Proofs.Ssh.KeyLine

/-!
# Keys that a vault exports

A secret is made of an export only if the key in it is one of the two kinds that are known, and such a
key is read back from its line (`ofLineBytes_of_publicKey`), which is what the secret keeps
(`publicData_of_ofExport`).
-/

namespace VaultAgent

open VaultAgent.Action
open Ssh (PublicKey)

namespace Export

variable {secretType encoded fallbackName : String} {raw : List UInt8} {key : PublicKey} {s : Secret}

/-- The text holds a record of a secret of this type, and this is the vault's encoding of its key. -/
def Exports (encoded secretType : String) (raw : List UInt8) : Prop :=
  ∃ document record, Base64.decode (Utf8.encode (Blank.trim encoded.toList)) = .ok document ∧
    Record.ofBytes? document = some record ∧ record.secretType = secretType ∧
    Base64.ofText record.publicData = .ok raw

/-- A key that is taken over is a point of one of the curves or has the length of Ed25519. -/
theorem publicKey_eq_ok (h : publicKey secretType raw = .ok key) :
    (∃ curve, Ssh.curveOfPoint raw = .ok curve ∧ key = .ecdsa curve raw) ∨
      raw.length = Ssh.Decoder.ed25519Length ∧ key = .ed25519 raw := by
  unfold publicKey at h
  split at h
  · left
    obtain ⟨curve, hcurve, h⟩ := except_bind_eq_ok.1 (mapError_eq_ok.1 h)
    cases h
    exact ⟨curve, hcurve, rfl⟩
  · split at h
    · right
      split at h
      · rename_i hlen
        cases h
        exact ⟨hlen, rfl⟩
      · cases h
    · cases h

/-- Whatever form a point has. -/
theorem ofLineBytes_of_publicKey (h : publicKey secretType raw = .ok key) :
    PublicKey.ofLineBytes (Utf8.bytes key.line) = .ok key := by
  rcases publicKey_eq_ok h with ⟨curve, hcurve, rfl⟩ | ⟨hlen, rfl⟩
  · have hregistered : Ssh.Algorithm.ecdsa curve ∈ Ssh.Algorithm.ofKeys := by cases curve <;> decide
    exact PublicKey.ofLineBytes_line (Ssh.Decoder.reads_ecdsa hcurve) hregistered
  · have hregistered : Ssh.Algorithm.ed25519 ∈ Ssh.Algorithm.ofKeys := by decide
    exact PublicKey.ofLineBytes_line (Ssh.Decoder.reads_ed25519 hlen) hregistered

example : PublicKey.ofLineBytes (Utf8.bytes (PublicKey.ecdsa .p384 (3 :: List.replicate 48 7)).line) =
    .ok (.ecdsa .p384 (3 :: List.replicate 48 7)) := by decide +kernel

/-- The public data of a secret is the line of the key that the vault exported. -/
theorem publicData_of_ofExport (h : Secret.ofExport encoded fallbackName = .ok s) : ∃ raw key,
    Exports encoded s.secretType raw ∧ publicKey s.secretType raw = .ok key ∧
      s.publicData = Utf8.bytes key.line := by
  obtain ⟨document, hd, h⟩ := except_bind_eq_ok.1 h
  split at h
  · cases h
  · rename_i record hrecord
    obtain ⟨raw, hraw, h⟩ := except_bind_eq_ok.1 h
    obtain ⟨key, hkey, h⟩ := except_bind_eq_ok.1 h
    obtain ⟨ancestors, -, h⟩ := except_bind_eq_ok.1 h
    cases h
    exact ⟨raw, key, ⟨document, record, mapError_eq_ok.1 hd, hrecord, rfl, mapError_eq_ok.1 hraw⟩,
      hkey, rfl⟩

end Export

end VaultAgent
