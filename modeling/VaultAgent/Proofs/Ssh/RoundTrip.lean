import VaultAgent.Proofs.Base64.Stream
import VaultAgent.Proofs.Ssh.Point
import VaultAgent.Proofs.Text.Utf8

/-!
# Reading back what is written

A decoder reads bytes as a value if it takes just these bytes off the front of any source and gives the
value, whether the source holds them plainly or as base64 and whatever comes behind (`Reads`). The field
decoders read what the writers of fields write, and so the decoder of public keys reads a written key
(`reads_ed25519`, `reads_ecdsa`).
-/

namespace VaultAgent.Ssh

open VaultAgent.Action

variable {bytes more : List UInt8}

/-! ## Sources -/

/-- The bytes that are left to be taken. -/
def Source.Carries : Source → List UInt8 → Prop
  | .plain left, bytes => left = bytes
  | .base64 stream, bytes => stream.Carries bytes

namespace Source.Carries

variable {source : Source}

theorem size (h : source.Carries bytes) : source.size = bytes.length := by
  cases source with
  | plain left => exact congrArg List.length h
  | base64 stream => exact Base64.Stream.size_of_carries h

theorem take (h : source.Carries (bytes ++ more)) :
    ∃ source', source.take bytes.length = .ok (bytes, source') ∧ source'.Carries more := by
  cases source with
  | plain left =>
    obtain rfl : left = bytes ++ more := h
    refine ⟨.plain more, ?_, rfl⟩
    rw [Source.take, if_pos (by simp), List.take_left, List.drop_left]
  | base64 stream =>
    obtain ⟨stream', ht, hmore⟩ := Base64.Stream.take_of_carries h
    refine ⟨.base64 stream', ?_, hmore⟩
    rw [Source.take, ht]

end Source.Carries

/-! ## Decoders -/

/-- The decoder takes these bytes and gives the value. It may run within values that have a length, if
there is room for the bytes in them. -/
def Reads {α : Type} (d : Decoder α) (bytes : List UInt8) (a : α) : Prop :=
  ∀ ⦃source limits more⦄, source.Carries (bytes ++ more) → (∀ l ∈ limits, bytes.length ≤ l) →
    ∃ source', d ⟨source, limits⟩ = .ok (a, ⟨source', limits.map (· - bytes.length)⟩) ∧
      source'.Carries more

/-- The decoder takes these bytes if they are all that the value being read may take. -/
def Fills {α : Type} (d : Decoder α) (bytes : List UInt8) (a : α) : Prop :=
  ∀ ⦃source limits more⦄, source.Carries (bytes ++ more) → (∀ l ∈ limits, bytes.length ≤ l) →
    ∃ source', d ⟨source, bytes.length :: limits⟩ =
        .ok (a, ⟨source', 0 :: limits.map (· - bytes.length)⟩) ∧ source'.Carries more

section

variable {α β : Type} {d : Decoder α} {f : α → Decoder β} {a : α} {b : β} {bytes' : List UInt8}

namespace Reads

theorem pure (a : α) : Reads (pure a) [] a := by
  intro source limits more h _
  refine ⟨source, ?_, h⟩
  have hlimits : limits.map (· - ([] : List UInt8).length) = limits := by simp
  rw [hlimits]
  rfl

theorem bind (hd : Reads d bytes a) (hf : Reads (f a) bytes' b) :
    Reads (d >>= f) (bytes ++ bytes') b := by
  intro source limits more h hl
  have hlimits : (limits.map (· - bytes.length)).map (· - bytes'.length) =
      limits.map (· - (bytes ++ bytes').length) := by
    rw [List.map_map, List.length_append]
    exact List.map_congr_left fun l _ => Nat.sub_sub l bytes.length bytes'.length
  rw [List.append_assoc] at h
  rw [List.length_append] at hl
  obtain ⟨source₁, hrun, h₁⟩ := hd h fun l hmem => Nat.le_trans (Nat.le_add_right ..) (hl l hmem)
  have hl₁ : ∀ l ∈ limits.map (· - bytes.length), bytes'.length ≤ l := by
    intro l hmem
    obtain ⟨limit, hlimit, rfl⟩ := List.mem_map.1 hmem
    exact Nat.le_sub_of_add_le' (hl limit hlimit)
  obtain ⟨source₂, hrun', h₂⟩ := hf h₁ hl₁
  rw [hlimits] at hrun'
  exact ⟨source₂, except_bind_eq_ok.2 ⟨_, hrun, hrun'⟩, h₂⟩

/-- A decision that takes nothing. -/
theorem bind_pure (hd : Reads d bytes a) (hf : f a = Pure.pure b) : Reads (d >>= f) bytes b := by
  have h := hd.bind (hf ▸ Reads.pure b)
  rwa [List.append_nil] at h

theorem fills (h : Reads d bytes a) : Fills d bytes a := by
  intro source limits more hs hl
  have hrun := h hs (List.forall_mem_cons.2 ⟨Nat.le_refl bytes.length, hl⟩)
  rwa [List.map_cons, Nat.sub_self] at hrun

end Reads

end

namespace Decoder

variable {α : Type} {a : α} {value : Decoder α} {n : Nat} {s : String}

theorem bind_of_ok {β : Type} {f : α → Decoder β} {r r' : Reader} (h : value r = .ok (a, r')) :
    (value >>= f) r = f a r' := by
  show (value r >>= fun x => f x.1 x.2) = _
  rw [h]
  rfl

theorem reads_take (bytes : List UInt8) : Reads (take bytes.length) bytes bytes := by
  intro source limits more h hl
  have hall : limits.all (bytes.length ≤ ·) = true :=
    List.all_eq_true.2 fun l hmem => decide_eq_true (hl l hmem)
  obtain ⟨source', ht, hmore⟩ := h.take
  refine ⟨source', ?_, hmore⟩
  unfold take
  rw [if_pos hall, ht]
  rfl

theorem reads_number (width : Nat) (h : n < capacity width) :
    Reads (number width) (beBytes width n) n := by
  have ht := reads_take (beBytes width n)
  rw [beBytes_length] at ht
  have hread : Reads (number width) (beBytes width n) (beValue (beBytes width n)) :=
    ht.bind_pure (f := fun bytes => pure (beValue bytes)) rfl
  rwa [beValue_beBytes, Nat.mod_eq_of_lt h] at hread

theorem reads_length (h : n ≤ maxLength) : Reads length (word n) n := by
  have hfits : n < capacity 4 := Nat.lt_of_le_of_lt h (by decide)
  exact (reads_number 4 hfits).bind_pure (if_neg (Nat.not_lt.2 h))

theorem fills_rest (bytes : List UInt8) : Fills rest bytes bytes :=
  (reads_take bytes).fills

theorem reads_within (h : Fills value bytes a) (hlen : bytes.length ≤ maxLength) :
    Reads (within value) (Ssh.block bytes) a := by
  refine (reads_length hlen).bind ?_
  intro source limits more hs hl
  obtain ⟨source', hrun, hmore⟩ := h hs hl
  exact ⟨source', except_bind_eq_ok.2 ⟨_, hrun, rfl⟩, hmore⟩

theorem reads_blockUpTo {most : Nat} (hmost : bytes.length ≤ most) (hlen : bytes.length ≤ maxLength) :
    Reads (blockUpTo most) (Ssh.block bytes) bytes := by
  refine reads_within ?_ hlen
  intro source limits more hs hl
  obtain ⟨source', hrun, hmore⟩ := fills_rest bytes hs hl
  have hnot : ¬ bytes.length > most := Nat.not_lt.2 hmost
  refine ⟨source', except_bind_eq_ok.2 ⟨_, rfl, ?_⟩, hmore⟩
  show (if bytes.length > most then _ else _ : Decoder _) _ = _
  rw [if_neg hnot]
  exact hrun

theorem reads_blockOf (hlen : bytes.length ≤ maxLength) :
    Reads (blockOf bytes.length) (Ssh.block bytes) bytes :=
  reads_within (reads_take bytes).fills hlen

theorem spelled_bytes (s : String) : spelled (Utf8.bytes s) = pure s := by
  rw [spelled, Utf8.string_bytes]

theorem reads_label (h : (Utf8.bytes s).length ≤ maxLabel) : Reads label (textBlock s) s := by
  have hlen : (Utf8.bytes s).length ≤ maxLength := Nat.le_trans h (by decide)
  exact (reads_blockUpTo h hlen).bind_pure (spelled_bytes s)

theorem reads_curve (c : Curve) : Reads curve (textBlock c.name) c := by
  have hshort : (Utf8.bytes c.name).length ≤ maxLabel := by cases c <;> decide
  refine (reads_label hshort).bind_pure ?_
  rw [Curve.ofName?_name]

theorem reads_algorithm {a : Algorithm} (h : Algorithm.ofName? a.name = some a)
    (hshort : (Utf8.bytes a.name).length ≤ maxLabel) : Reads algorithm (textBlock a.name) a := by
  refine (reads_label hshort).bind_pure ?_
  rw [h]

theorem finish_of_carries {source : Source} (h : source.Carries []) :
    finish ⟨source, []⟩ = .ok ((), ⟨source, []⟩) := by
  have hnone : ¬ source.size ≠ 0 := not_not.2 h.size
  show (if source.size ≠ 0 then throw _ else pure () : Decoder Unit) _ = _
  rw [if_neg hnone]
  rfl

/-! ## Public keys -/

theorem reads_ed25519 {key : List UInt8} (h : key.length = ed25519Length) :
    Reads publicKey (PublicKey.ed25519 key).toBytes (.ed25519 key) := by
  have hlen : key.length ≤ maxLength := h ▸ (by decide)
  have hkey : Reads (blockOf ed25519Length) (Ssh.block key) key := h ▸ reads_blockOf hlen
  have halgorithm := reads_algorithm (a := .ed25519) (by decide) (by decide)
  exact halgorithm.bind (hkey.bind_pure rfl)

theorem reads_ecdsa {point : List UInt8} {c : Curve} (h : curveOfPoint point = .ok c) :
    Reads publicKey (PublicKey.ecdsa c point).toBytes (.ecdsa c point) := by
  have hmost : point.length ≤ maxPoint := by
    have hlen := (curveOfPoint_eq_ok.1 h).length_eq
    cases c <;> simp only [Curve.fieldSize, maxPoint] at hlen ⊢ <;> omega
  have hpoint := reads_blockUpTo hmost (Nat.le_trans hmost (by decide))
  have halgorithm : Reads algorithm (textBlock (Algorithm.ecdsa c).name) (.ecdsa c) := by
    cases c <;> exact reads_algorithm (by decide) (by decide)
  have hfound : Reads (ofExcept (curveOfPoint point)) [] c := h ▸ Reads.pure c
  have hsame := hfound.bind_pure (f := fun found => do
    if found ≠ c then throw .unknownAlgorithm
    return (c, point)) (if_neg (not_not.2 rfl))
  have hchecked : Reads ecdsaKey (textBlock c.name ++ (Ssh.block point ++ [])) (c, point) :=
    (reads_curve c).bind (hpoint.bind hsame)
  rw [List.append_nil] at hchecked
  refine halgorithm.bind (hchecked.bind_pure ?_)
  exact if_neg (not_not.2 rfl)

end Decoder

end VaultAgent.Ssh
