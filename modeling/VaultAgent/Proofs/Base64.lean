import VaultAgent.Base64
import VaultAgent.Proofs.Action
import VaultAgent.Proofs.Text.Utf8

/-!
# Reading back what base64 writes

`decode` undoes `encode` (`decode_encode`) and reads nothing else (`decode_eq_ok`). Three bytes are
written as four signs, none of which is the padding, so they are read as one group whatever follows; the
one or two bytes at the end are read as the suffix, the signs in front of the padding having no surplus
bits.
-/

namespace VaultAgent.Base64

open VaultAgent.Action

variable {u v w x n offset : Nat} {bs signs : List UInt8} {vs : List Nat} {b : UInt8}

/-! ## Signs -/

theorem symbol_ne_pad (h : v < 64) : symbol v ≠ pad := by
  intro he
  have hv := value?_symbol v h
  have hpad : value? pad = none := by decide
  rw [he, hpad] at hv
  cases hv

theorem symbol_lt (h : v < 64) : symbol v < 0x80 := by
  have hall : ∀ v : Fin 64, symbol v.val < 0x80 := by decide
  exact hall ⟨v, h⟩

theorem valuesAt_map_symbol {vs : List Nat} (h : ∀ v ∈ vs, v < 64) :
    valuesAt offset (vs.map symbol) = .ok vs := by
  induction vs generalizing offset with
  | nil => rfl
  | cons v vs ih =>
    obtain ⟨hv, hvs⟩ := List.forall_mem_cons.1 h
    have hat : valueAt offset (symbol v) = .ok v := by rw [valueAt, value?_symbol v hv]
    rw [List.map_cons, valuesAt, hat, ih hvs]
    rfl

/-! ## Groups -/

/-- Signs and the padding that makes them four stand for the bytes of their values. -/
theorem decodeSuffix_padded {vs : List Nat} {k : Nat} (offset : Nat) (h : ∀ v ∈ vs, v < 64)
    (hlen : 2 ≤ vs.length) (hfour : vs.length + k = 4) (hsurplus : surplusBits vs = 0) :
    decodeSuffix offset (vs.map symbol ++ List.replicate k pad) = .ok (bytesOfValues vs) := by
  have hsigns : ∀ b ∈ vs.map symbol, (decide (b ≠ pad)) = true := by
    intro b hb
    obtain ⟨v, hv, rfl⟩ := List.mem_map.1 hb
    exact decide_eq_true (symbol_ne_pad (h v hv))
  have htake : (vs.map symbol ++ List.replicate k pad).takeWhile (· ≠ pad) = vs.map symbol := by
    rw [List.takeWhile_append_of_pos hsigns]
    simp
  have hdrop : (vs.map symbol ++ List.replicate k pad).dropWhile (· ≠ pad) =
      List.replicate k pad := by
    rw [List.dropWhile_append_of_pos hsigns]
    simp
  have hpadding : ¬ (List.replicate k pad ≠ [] ∧
      ((vs.map symbol).length < 2 ∨ ¬ (List.replicate k pad).all (· = pad))) := by
    rintro ⟨-, hshort | hother⟩
    · rw [List.length_map] at hshort; omega
    · exact hother (by simp)
  have hbody : ¬ (vs.map symbol ++ List.replicate k pad ≠ [] ∧ (vs.map symbol).length < 2) := by
    rintro ⟨-, hshort⟩
    rw [List.length_map] at hshort; omega
  have hmod : ¬ (vs.map symbol ++ List.replicate k pad).length % 4 ≠ 0 := by
    simp only [List.length_append, List.length_map, List.length_replicate, hfour]
    decide
  simp only [decodeSuffix, htake, hdrop]
  refine except_bind_eq_ok.2 ⟨vs, valuesAt_map_symbol h, ?_⟩
  refine except_guard_eq_ok.2 ⟨hpadding, except_guard_eq_ok.2 ⟨hbody, ?_⟩⟩
  exact except_guard_eq_ok.2 ⟨hmod, except_guard_eq_ok.2 ⟨not_not.2 hsurplus, rfl⟩⟩

theorem decodeGroups_of_four {vs : List Nat} (hlen : vs.length = 4) (h : ∀ v ∈ vs, v < 64)
    (b : UInt8) (rest : List UInt8) : decodeGroups offset (vs.map symbol ++ b :: rest) =
      (bytesOfValues vs ++ ·) <$> decodeGroups (offset + 4) (b :: rest) := by
  obtain ⟨u, v, w, x, rfl⟩ : ∃ u v w x, vs = [u, v, w, x] := by
    match vs, hlen with
    | [u, v, w, x], _ => exact ⟨u, v, w, x, rfl⟩
  have hvalues : valuesAt offset [symbol u, symbol v, symbol w, symbol x] = .ok [u, v, w, x] :=
    valuesAt_map_symbol h
  show (do
    let values ← valuesAt offset [symbol u, symbol v, symbol w, symbol x]
    let bytes ← decodeGroups (offset + 4) (b :: rest)
    return bytesOfValues values ++ bytes) = _
  rw [hvalues]
  cases decodeGroups (offset + 4) (b :: rest) <;> rfl

/-! ## The values of bytes -/

/-- The values of the signs for one byte. -/
def valuesOfOne (a : UInt8) : List Nat :=
  [a.toNat * 16 / 64, a.toNat * 16 % 64]

/-- The values of the signs for two bytes. -/
def valuesOfTwo (a b : UInt8) : List Nat :=
  let n := (a.toNat * 256 + b.toNat) * 4
  [n / 4096, n / 64 % 64, n % 64]

/-- The values of the signs for three bytes. -/
def valuesOfThree (a b c : UInt8) : List Nat :=
  let n := a.toNat * 65536 + b.toNat * 256 + c.toNat
  [n / 262144, n / 4096 % 64, n / 64 % 64, n % 64]

theorem encode_one (a : UInt8) :
    encode [a] = (valuesOfOne a).map symbol ++ List.replicate 2 pad := by
  simp [encode, valuesOfOne, List.replicate]

theorem encode_two (a b : UInt8) :
    encode [a, b] = (valuesOfTwo a b).map symbol ++ List.replicate 1 pad := by
  simp [encode, valuesOfTwo]

theorem encode_three (a b c : UInt8) :
    encode (a :: b :: c :: bs) = (valuesOfThree a b c).map symbol ++ encode bs := by
  simp [encode, valuesOfThree]

theorem valuesOfOne_lt (a : UInt8) : ∀ v ∈ valuesOfOne a, v < 64 := by
  have ha := a.toNat_lt
  simp [valuesOfOne]
  omega

theorem valuesOfTwo_lt (a b : UInt8) : ∀ v ∈ valuesOfTwo a b, v < 64 := by
  have ha := a.toNat_lt
  have hb := b.toNat_lt
  simp [valuesOfTwo]
  omega

theorem valuesOfThree_lt (a b c : UInt8) : ∀ v ∈ valuesOfThree a b c, v < 64 := by
  have ha := a.toNat_lt
  have hb := b.toNat_lt
  have hc := c.toNat_lt
  simp [valuesOfThree]
  omega

theorem bytesOfValues_valuesOfOne (a : UInt8) : bytesOfValues (valuesOfOne a) = [a] := by
  have h : (a.toNat * 16 / 64 * 64 + a.toNat * 16 % 64) / 16 = a.toNat := by omega
  simp only [valuesOfOne, bytesOfValues, h, UInt8.ofNat_toNat]

theorem bytesOfValues_valuesOfTwo (a b : UInt8) : bytesOfValues (valuesOfTwo a b) = [a, b] := by
  have hb := b.toNat_lt
  obtain ⟨n, hn⟩ : ∃ n, (a.toNat * 256 + b.toNat) * 4 = n := ⟨_, rfl⟩
  have hsum : n / 4096 * 4096 + n / 64 % 64 * 64 + n % 64 = n := by omega
  have h1 : n / 1024 = a.toNat := by omega
  have h2 : n / 4 % 256 = b.toNat := by omega
  simp only [valuesOfTwo, bytesOfValues, hn, hsum, h1, h2, UInt8.ofNat_toNat]

theorem bytesOfValues_valuesOfThree (a b c : UInt8) :
    bytesOfValues (valuesOfThree a b c) = [a, b, c] := by
  have hb := b.toNat_lt
  have hc := c.toNat_lt
  have hsum (n : Nat) : n / 262144 * 262144 + n / 4096 % 64 * 4096 + n / 64 % 64 * 64 + n % 64 = n := by
    omega
  obtain ⟨n, hn⟩ : ∃ n, a.toNat * 65536 + b.toNat * 256 + c.toNat = n := ⟨_, rfl⟩
  have h1 : n / 65536 = a.toNat := by omega
  have h2 : n / 256 % 256 = b.toNat := by omega
  have h3 : n % 256 = c.toNat := by omega
  simp only [valuesOfThree, bytesOfValues, hn, hsum, h1, h2, h3, UInt8.ofNat_toNat]

/-! ## The whole text -/

theorem decodeGroups_encode (offset : Nat) (bs : List UInt8) :
    decodeGroups offset (encode bs) = .ok bs := by
  induction bs using encode.induct generalizing offset with
  | case1 => rfl
  | case2 a =>
    have h := decodeSuffix_padded offset (k := 2) (valuesOfOne_lt a) (by simp [valuesOfOne])
      rfl (by simp only [valuesOfOne, surplusBits]; omega)
    rw [bytesOfValues_valuesOfOne] at h
    rw [encode_one]
    exact h
  | case3 a b =>
    have h := decodeSuffix_padded offset (k := 1) (valuesOfTwo_lt a b)
      (by simp [valuesOfTwo]) rfl (by simp only [valuesOfTwo, surplusBits]; omega)
    rw [bytesOfValues_valuesOfTwo] at h
    rw [encode_two]
    exact h
  | case4 a b c rest ih =>
    rw [encode_three]
    cases he : encode rest with
    | nil =>
      -- Nothing follows, so the group is the suffix.
      obtain rfl : rest = [] := by
        have hrest := ih 0
        rw [he] at hrest
        cases hrest
        rfl
      have h := decodeSuffix_padded offset (k := 0) (valuesOfThree_lt a b c)
        (by simp [valuesOfThree]) rfl rfl
      rw [bytesOfValues_valuesOfThree] at h
      exact h
    | cons sign more =>
      rw [decodeGroups_of_four rfl (valuesOfThree_lt a b c), ← he, ih, bytesOfValues_valuesOfThree]
      rfl

/-- Signs of values below 64, with the padding that makes them groups of four. -/
theorem encode_eq_signs (bs : List UInt8) : ∃ (vs : List Nat) (k n : Nat),
    encode bs = vs.map symbol ++ List.replicate k pad ∧ (∀ v ∈ vs, v < 64) ∧
      vs.length + k = 4 * n ∧ bs.length + k = 3 * n := by
  induction bs using encode.induct with
  | case1 => exact ⟨[], 0, 0, rfl, nofun, rfl, rfl⟩
  | case2 a => exact ⟨valuesOfOne a, 2, 1, encode_one a, valuesOfOne_lt a, rfl, rfl⟩
  | case3 a b => exact ⟨valuesOfTwo a b, 1, 1, encode_two a b, valuesOfTwo_lt a b, rfl, rfl⟩
  | case4 a b c rest ih =>
    obtain ⟨vs, k, n, he, hvs, hfour, hthree⟩ := ih
    have hlen : (valuesOfThree a b c).length = 4 := rfl
    refine ⟨valuesOfThree a b c ++ vs, k, n + 1, ?_, ?_, ?_, ?_⟩
    · rw [encode_three, he, List.map_append, List.append_assoc]
    · exact List.forall_mem_append.2 ⟨valuesOfThree_lt a b c, hvs⟩
    · rw [List.length_append]; omega
    · simp only [List.length_cons]; omega

theorem length_encode_mod (bs : List UInt8) : (encode bs).length % 4 = 0 := by
  obtain ⟨vs, k, n, he, -, hfour, -⟩ := encode_eq_signs bs
  rw [he, List.length_append, List.length_map, List.length_replicate, hfour]
  exact Nat.mul_mod_right 4 n

@[simp] theorem decode_encode (bs : List UInt8) : decode (encode bs) = .ok bs := by
  have hend : strayEnd? (encode bs) = none := by
    rw [strayEnd?, length_encode_mod, if_neg (by decide)]
  rw [decode, hend]
  exact decodeGroups_encode 0 bs

theorem encode_ne_nil (h : bs ≠ []) : encode bs ≠ [] := by
  intro he
  have hdecode := decode_encode bs
  rw [he] at hdecode
  cases hdecode
  exact h rfl

/-! ## What is read is written -/

theorem symbol_of_value? (h : value? b = some v) : symbol v = b ∧ v < 64 := by
  have hall : ∀ n : Fin 256, ∀ v ∈ value? (UInt8.ofNat n.val),
      symbol v = UInt8.ofNat n.val ∧ v < 64 := by decide +kernel
  have hb := hall ⟨b.toNat, b.toNat_lt⟩ v
  rw [UInt8.ofNat_toNat] at hb
  exact hb h

theorem valuesAt_eq_ok (h : valuesAt offset signs = .ok vs) :
    vs.map symbol = signs ∧ ∀ v ∈ vs, v < 64 := by
  induction signs generalizing offset vs with
  | nil =>
    cases h
    exact ⟨rfl, nofun⟩
  | cons b signs ih =>
    obtain ⟨v, hv, h⟩ := except_bind_eq_ok.1 h
    obtain ⟨vs', hvs, h⟩ := except_bind_eq_ok.1 h
    cases h
    have hb : value? b = some v := by
      unfold valueAt at hv
      split at hv
      · rename_i hb
        cases hv
        exact hb
      · cases hv
    obtain ⟨rfl, hlt⟩ := symbol_of_value? hb
    obtain ⟨rfl, hall⟩ := ih hvs
    exact ⟨rfl, List.forall_mem_cons.2 ⟨hlt, hall⟩⟩

/-- Two values without surplus bits are those of the byte that they stand for. -/
theorem encode_bytesOfValues_two (hu : u < 64) (hv : v < 64) (hsurplus : v % 16 = 0) :
    encode (bytesOfValues [u, v]) = [u, v].map symbol ++ List.replicate 2 pad := by
  have hbyte : (UInt8.ofNat ((u * 64 + v) / 16)).toNat = (u * 64 + v) / 16 :=
    Utf8.toNat_ofNat_of_lt (by omega)
  have hvalues : valuesOfOne (UInt8.ofNat ((u * 64 + v) / 16)) = [u, v] := by
    simp only [valuesOfOne, hbyte, List.cons.injEq, and_true]
    omega
  rw [bytesOfValues, encode_one, hvalues]

theorem encode_bytesOfValues_three (hu : u < 64) (hv : v < 64) (hw : w < 64)
    (hsurplus : w % 4 = 0) :
    encode (bytesOfValues [u, v, w]) = [u, v, w].map symbol ++ List.replicate 1 pad := by
  obtain ⟨n, hn⟩ : ∃ n, u * 4096 + v * 64 + w = n := ⟨_, rfl⟩
  have hfirst : (UInt8.ofNat (n / 1024)).toNat = n / 1024 := Utf8.toNat_ofNat_of_lt (by omega)
  have hsecond : (UInt8.ofNat (n / 4 % 256)).toNat = n / 4 % 256 := Utf8.toNat_ofNat_of_lt (by omega)
  have hvalues : valuesOfTwo (UInt8.ofNat (n / 1024)) (UInt8.ofNat (n / 4 % 256)) = [u, v, w] := by
    simp only [valuesOfTwo, hfirst, hsecond, List.cons.injEq, and_true]
    omega
  rw [bytesOfValues, hn, encode_two, hvalues]

theorem encode_bytesOfValues_four (hu : u < 64) (hv : v < 64) (hw : w < 64) (hx : x < 64)
    (bs : List UInt8) :
    encode (bytesOfValues [u, v, w, x] ++ bs) = [u, v, w, x].map symbol ++ encode bs := by
  obtain ⟨n, hn⟩ : ∃ n, u * 262144 + v * 4096 + w * 64 + x = n := ⟨_, rfl⟩
  have hfirst : (UInt8.ofNat (n / 65536)).toNat = n / 65536 := Utf8.toNat_ofNat_of_lt (by omega)
  have hsecond : (UInt8.ofNat (n / 256 % 256)).toNat = n / 256 % 256 :=
    Utf8.toNat_ofNat_of_lt (by omega)
  have hthird : (UInt8.ofNat (n % 256)).toNat = n % 256 := Utf8.toNat_ofNat_of_lt (by omega)
  have hvalues : valuesOfThree (UInt8.ofNat (n / 65536)) (UInt8.ofNat (n / 256 % 256))
      (UInt8.ofNat (n % 256)) = [u, v, w, x] := by
    simp only [valuesOfThree, hfirst, hsecond, hthird, List.cons.injEq, and_true]
    omega
  rw [bytesOfValues, hn, List.cons_append, List.cons_append, List.cons_append, List.nil_append,
    encode_three, hvalues]

/-- Values that fill a group with some padding are those of the bytes that they stand for. -/
theorem encode_bytesOfValues {k : Nat} (h : ∀ v ∈ vs, v < 64) (hlen : 2 ≤ vs.length)
    (hfour : vs.length + k = 4) (hsurplus : surplusBits vs = 0) :
    encode (bytesOfValues vs) = vs.map symbol ++ List.replicate k pad := by
  match vs, hlen with
  | [u, v], _ =>
    obtain rfl : k = 2 := by simp at hfour; omega
    simp only [List.forall_mem_cons] at h
    exact encode_bytesOfValues_two h.1 h.2.1 hsurplus
  | [u, v, w], _ =>
    obtain rfl : k = 1 := by simp at hfour; omega
    simp only [List.forall_mem_cons] at h
    exact encode_bytesOfValues_three h.1 h.2.1 h.2.2.1 hsurplus
  | [u, v, w, x], _ =>
    obtain rfl : k = 0 := by simpa using hfour
    simp only [List.forall_mem_cons] at h
    have hencode := encode_bytesOfValues_four h.1 h.2.1 h.2.2.1 h.2.2.2.1 []
    rwa [List.append_nil] at hencode
  | _ :: _ :: _ :: _ :: _ :: _, _ => simp at hfour; omega

/-- A suffix that is read is one group of signs and padding. -/
theorem signs_of_decodeSuffix (hnil : signs ≠ []) (hlen : signs.length ≤ 4)
    (h : decodeSuffix offset signs = .ok bs) : ∃ vs k, signs = vs.map symbol ++ List.replicate k pad ∧
      bs = bytesOfValues vs ∧ (∀ v ∈ vs, v < 64) ∧ 2 ≤ vs.length ∧ vs.length + k = 4 ∧
      surplusBits vs = 0 := by
  obtain ⟨vs, hvalues, h⟩ := except_bind_eq_ok.1 h
  obtain ⟨hpadding, h⟩ := except_guard_eq_ok.1 h
  obtain ⟨hbody, h⟩ := except_guard_eq_ok.1 h
  obtain ⟨hmod, h⟩ := except_guard_eq_ok.1 h
  obtain ⟨hsurplus, h⟩ := except_guard_eq_ok.1 h
  cases h
  obtain ⟨hsigns, hlt⟩ := valuesAt_eq_ok hvalues
  have hsplit : signs = vs.map symbol ++ signs.dropWhile (· ≠ pad) := by
    rw [hsigns, List.takeWhile_append_dropWhile]
  rw [← hsigns, List.length_map] at hpadding hbody
  have hpads : signs.dropWhile (· ≠ pad) =
      List.replicate (signs.dropWhile (· ≠ pad)).length pad := by
    refine List.eq_replicate_iff.2 ⟨rfl, fun b hb => ?_⟩
    by_contra hne
    refine hpadding ⟨List.ne_nil_of_mem hb, .inr fun hall => hne ?_⟩
    exact of_decide_eq_true (List.all_eq_true.1 hall b hb)
  have hlength := congrArg List.length hsplit
  rw [List.length_append, List.length_map] at hlength
  have hpos := List.length_pos_of_ne_nil hnil
  refine ⟨vs, (signs.dropWhile (· ≠ pad)).length, hpads ▸ hsplit, rfl, hlt, ?_, by omega,
    not_not.1 hsurplus⟩
  by_contra hshort
  exact hbody ⟨hnil, by omega⟩

theorem encode_of_decodeSuffix (hlen : signs.length ≤ 4) (h : decodeSuffix offset signs = .ok bs) :
    encode bs = signs := by
  by_cases hnil : signs = []
  · subst hnil
    cases h
    rfl
  · obtain ⟨vs, k, rfl, rfl, hlt, htwo, hfour, hsurplus⟩ := signs_of_decodeSuffix hnil hlen h
    exact encode_bytesOfValues hlt htwo hfour hsurplus

theorem encode_of_decodeGroups (h : decodeGroups offset signs = .ok bs) : encode bs = signs := by
  fun_induction decodeGroups offset signs generalizing bs with
  | case1 offset a b c d e rest ih =>
    obtain ⟨vs, hvalues, h⟩ := except_bind_eq_ok.1 h
    obtain ⟨more, hmore, h⟩ := except_bind_eq_ok.1 h
    cases h
    obtain ⟨hsigns, hlt⟩ := valuesAt_eq_ok hvalues
    obtain ⟨u, v, w, x, rfl⟩ : ∃ u v w x, vs = [u, v, w, x] := by
      match vs, congrArg List.length hsigns with
      | [u, v, w, x], _ => exact ⟨u, v, w, x, rfl⟩
    simp only [List.forall_mem_cons] at hlt
    rw [encode_bytesOfValues_four hlt.1 hlt.2.1 hlt.2.2.1 hlt.2.2.2.1, hsigns, ih hmore]
    rfl
  | case2 offset signs hshort =>
    refine encode_of_decodeSuffix ?_ h
    match signs, hshort with
    | [], _ | [_], _ | [_, _], _ | [_, _, _], _ | [_, _, _, _], _ => simp
    | a :: b :: c :: d :: e :: rest, hshort => exact absurd rfl (hshort a b c d e rest)

/-- A text is read as the bytes that it is written for, and no other text is read. -/
theorem decode_eq_ok : decode signs = .ok bs ↔ encode bs = signs := by
  constructor
  · intro h
    unfold decode at h
    split at h
    · cases h
    · exact encode_of_decodeGroups h
  · rintro rfl
    exact decode_encode bs

/-! ## As text -/

theorem mem_encode {b : UInt8} (h : b ∈ encode bs) : b = pad ∨ ∃ v < 64, symbol v = b := by
  obtain ⟨vs, k, n, he, hvs, -⟩ := encode_eq_signs bs
  rw [he, List.mem_append] at h
  rcases h with h | h
  · obtain ⟨v, hv, rfl⟩ := List.mem_map.1 h
    exact .inr ⟨v, hvs v hv, rfl⟩
  · exact .inl (List.eq_of_mem_replicate h)

theorem lt_of_mem_encode {b : UInt8} (h : b ∈ encode bs) : b < 0x80 := by
  rcases mem_encode h with rfl | ⟨v, hv, rfl⟩
  · decide
  · exact symbol_lt hv

@[simp] theorem ofText_text (bs : List UInt8) : ofText (text bs) = .ok bs := by
  rw [ofText, text, Utf8.bytes_ascii fun b => lt_of_mem_encode, decode_encode]

end VaultAgent.Base64
