import VaultAgent.NameMap
import VaultAgent.Proofs.Text.Utf8

/-!
# The order of texts is that of their bytes

A character is less than another if its UTF-8 form is, and no form begins another. So texts are in
the order of their bytes (`bytes_lt_bytes`), which is the order in which names are kept.
-/

namespace VaultAgent.Utf8

variable {m n : Nat} {l l' : List UInt8} {c d : Char} {cs ds : List Char}

theorem cons_ofNat_lt (hm : m < 256) (hn : n < 256) :
    UInt8.ofNat m :: l < UInt8.ofNat n :: l' ↔ m < n ∨ m = n ∧ l < l' := by
  rw [List.cons_lt_cons_iff, UInt8.lt_iff_toNat_lt, ← UInt8.toNat_inj, toNat_ofNat_of_lt hm,
    toNat_ofNat_of_lt hn]

theorem encodeChar_ne_nil (c : Char) : encodeChar c ≠ [] := by
  unfold encodeChar
  dsimp only
  split_ifs <;> simp

/-- The forms of two characters differ at a place that both of them have, whatever follows them. -/
theorem encodeChar_append_lt (h : c < d) : encodeChar c ++ l < encodeChar d ++ l' := by
  have hlt : c.toNat < d.toNat := h
  have hc := toNat_range c
  have hd := toNat_range d
  unfold encodeChar
  dsimp only
  split_ifs <;> simp (disch := omega) only [List.cons_append, List.nil_append, cons_ofNat_lt] <;>
    omega

theorem encode_lt_of_lt (h : cs < ds) : encode cs < encode ds := by
  induction cs generalizing ds with
  | nil =>
    cases ds with
    | nil => exact absurd h (List.lt_irrefl _)
    | cons d ds =>
      obtain ⟨b, bs, hd⟩ := List.exists_cons_of_ne_nil (encodeChar_ne_nil d)
      rw [encode, encode, List.flatMap_cons, hd]
      exact List.nil_lt_cons ..
  | cons c cs ih =>
    cases ds with
    | nil => exact absurd h (List.not_lt_nil _)
    | cons d ds =>
      rw [encode, encode, List.flatMap_cons, List.flatMap_cons]
      rcases List.cons_lt_cons_iff.1 h with hcd | ⟨rfl, hrest⟩
      · exact encodeChar_append_lt hcd
      · exact List.append_left_lt (ih hrest)

theorem bytes_lt_bytes {s t : String} : bytes s < bytes t ↔ s < t := by
  have hlt {s t : String} (h : s < t) : bytes s < bytes t :=
    encode_lt_of_lt (String.lt_iff.1 h)
  refine ⟨fun h => ?_, hlt⟩
  by_contra hst
  rcases eq_or_ne s t with rfl | hne
  · exact List.lt_irrefl _ h
  · exact List.lt_asymm h (hlt (NameMap.lt_of_not_lt_of_ne hst hne))

end VaultAgent.Utf8
