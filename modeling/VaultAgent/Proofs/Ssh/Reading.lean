import VaultAgent.Ssh.PublicKey
import VaultAgent.Proofs.Action

/-!
# Where a decoder stops

A decoder that settles reads one value from the front of its bytes, and it reads the same one with
the same bytes taken whatever comes behind. The field decoders settle, and so does that of public
keys, because each takes as many bytes as a length in front of it says (`settles_publicKey`). The
decoder of all that is left settles only within a value whose length is known.
-/

namespace VaultAgent.Ssh

open VaultAgent.Action

/-- What comes behind does not matter to the decoder, if it runs within so many values. -/
def Settles {ε α : Type} (depth : Nat) (d : StateT Reader (Except ε) α) : Prop :=
  ∀ ⦃left limits a r⦄, depth ≤ limits.length → d ⟨.plain left, limits⟩ = .ok (a, r) →
    ∃ left' limits', r = ⟨.plain left', limits'⟩ ∧ limits'.length = limits.length ∧
      ∀ more, d ⟨.plain (left ++ more), limits⟩ = .ok (a, ⟨.plain (left' ++ more), limits'⟩)

namespace Settles

variable {ε α β : Type} {depth : Nat} {d : StateT Reader (Except ε) α}
  {f : α → StateT Reader (Except ε) β}

theorem pure (a : α) : Settles depth (pure a : StateT Reader (Except ε) α) := by
  intro left limits b r _ h
  cases h
  exact ⟨left, limits, rfl, rfl, fun _ => rfl⟩

theorem throw (e : ε) : Settles depth (throw e : StateT Reader (Except ε) α) := by
  intro left limits b r _ h
  cases h

theorem bind (hd : Settles depth d) (hf : ∀ a, Settles depth (f a)) : Settles depth (d >>= f) := by
  intro left limits b r hn h
  obtain ⟨⟨a, r⟩, hda, hfa⟩ := except_bind_eq_ok.1 h
  obtain ⟨left, limits, rfl, hlen, hd⟩ := hd hn hda
  obtain ⟨left, limits, rfl, hlen', hf⟩ := hf a (hlen ▸ hn) hfa
  refine ⟨left, limits, rfl, hlen'.trans hlen, fun more => ?_⟩
  exact except_bind_eq_ok.2 ⟨_, hd more, hf more⟩

/-- A check in front of a decoder. -/
theorem guard {c : Prop} [Decidable c] {e : ε} {g : PUnit → StateT Reader (Except ε) α}
    (hd : Settles depth d) : Settles depth (if c then MonadExcept.throw e >>= g else d) := by
  split
  · intro left limits a r _ h
    cases h
  · exact hd

theorem mono {depth' : Nat} (hd : Settles depth d) (hle : depth ≤ depth') : Settles depth' d :=
  fun _ _ _ _ hn h => hd (Nat.le_trans hle hn) h

end Settles

namespace Decoder

variable {α : Type} {depth : Nat} {value : Decoder α}

theorem settles_take (n : Nat) : Settles depth (take n) := by
  intro left limits a r _ h
  unfold take at h ⊢
  split at h
  · rename_i hall
    obtain ⟨⟨bytes, source⟩, ht, h⟩ := except_bind_eq_ok.1 h
    rw [Source.take] at ht
    split at ht
    · rename_i hle
      cases ht
      cases h
      refine ⟨left.drop n, limits.map (· - n), rfl, List.length_map _, fun more => ?_⟩
      rw [if_pos hall, Source.take, if_pos (Nat.le_trans hle (by simp)),
        List.take_append_of_le_length hle, List.drop_append_of_le_length hle]
      rfl
    · cases ht
  · cases h

theorem settles_number (width : Nat) : Settles depth (number width) :=
  (settles_take width).bind fun _ => .pure _

theorem settles_length : Settles depth length :=
  (settles_number 4).bind fun _ => .guard (.pure _)

/-- Within a value that has a length, what may be taken is known. -/
theorem settles_remaining : Settles 1 remaining := by
  intro left limits a r hn h
  obtain ⟨limit, limits, rfl⟩ := List.exists_cons_of_length_pos hn
  cases h
  exact ⟨left, limit :: limits, rfl, rfl, fun _ => rfl⟩

theorem settles_rest : Settles 1 rest :=
  settles_remaining.bind settles_take

theorem settles_within (h : Settles (depth + 1) value) : Settles depth (within value) := by
  refine settles_length.bind fun n => ?_
  intro left limits a r hn hrun
  obtain ⟨⟨a, r⟩, hv, hrun⟩ := except_bind_eq_ok.1 hrun
  obtain ⟨left', limits', rfl, hlen, hmore⟩ :=
    @h left (n :: limits) a r (Nat.succ_le_succ hn) hv
  cases hrun
  refine ⟨left', limits'.tail, rfl, ?_, fun more => ?_⟩
  · rw [List.length_tail, hlen]
    rfl
  · exact except_bind_eq_ok.2 ⟨_, hmore more, rfl⟩

theorem settles_block : Settles depth block :=
  settles_within (settles_rest.mono (Nat.succ_le_succ depth.zero_le))

theorem settles_blockUpTo (most : Nat) : Settles depth (blockUpTo most) :=
  settles_within ((settles_remaining.bind fun _ => .guard settles_rest).mono
    (Nat.succ_le_succ depth.zero_le))

theorem settles_blockOf (n : Nat) : Settles depth (blockOf n) :=
  settles_within (settles_take n)

theorem settles_spelled (bytes : List UInt8) : Settles depth (spelled bytes) := by
  unfold spelled
  split
  · exact .pure _
  · exact .throw _

theorem settles_text : Settles depth text :=
  settles_block.bind settles_spelled

theorem settles_label : Settles depth label :=
  (settles_blockUpTo _).bind settles_spelled

theorem settles_integer : Settles depth integer :=
  settles_block.bind fun _ => .guard (.pure _)

theorem settles_ofExcept (x : Except WireError α) : Settles depth (ofExcept x) := by
  cases x with
  | ok a => exact .pure a
  | error e => exact .throw e

/-! ## Public keys -/

theorem settles_curve : Settles depth curve := by
  refine settles_label.bind fun name => ?_
  cases Curve.ofName? name with
  | some c => exact .pure c
  | none => exact .throw _

theorem settles_algorithm : Settles depth algorithm := by
  refine settles_label.bind fun name => ?_
  cases Algorithm.ofName? name with
  | some a => exact .pure a
  | none => exact .throw _

theorem settles_ecdsaKey : Settles depth ecdsaKey :=
  settles_curve.bind fun _ => (settles_blockUpTo _).bind fun _ =>
    (settles_ofExcept _).bind fun _ => .guard (.pure _)

theorem settles_publicKeyBody (a : Algorithm) : Settles depth (publicKeyBody a) := by
  cases a with
  | dsa =>
    refine settles_integer.bind fun p => settles_integer.bind fun q => ?_
    exact settles_integer.bind fun g => settles_integer.bind fun y => .pure _
  | ecdsa c => exact settles_ecdsaKey.bind fun _ => .guard (.pure _)
  | ed25519 => exact (settles_blockOf _).bind fun _ => .pure _
  | rsa _ => exact settles_integer.bind fun _ => settles_integer.bind fun _ => .pure _
  | skEcdsa =>
    refine settles_curve.bind fun c => .guard ?_
    exact (settles_blockUpTo _).bind fun _ => .guard (settles_text.bind fun _ => .pure _)
  | skEd25519 => exact (settles_blockOf _).bind fun _ => settles_text.bind fun _ => .pure _
  | other name => exact settles_block.bind fun _ => .pure _

theorem settles_publicKey : Settles depth publicKey :=
  settles_algorithm.bind settles_publicKeyBody

end Decoder

end VaultAgent.Ssh
