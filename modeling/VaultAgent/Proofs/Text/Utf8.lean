import VaultAgent.Proofs.Action
import VaultAgent.Text.Utf8
import Mathlib.Tactic.Common

/-!
# Reading back what UTF-8 writes

`decode` undoes `encode`, and reads nothing else (`decode_eq_ok`): a character is written in its shortest
form, and that is the form that is read. The lemmas `decodeFrom_one` to `decodeFrom_four` read one
character of each width, and `encodeChar_one` to `encodeChar_four` write what was read; the position at
which faults would be reported plays no part.
-/

namespace VaultAgent.Utf8

open VaultAgent.Action

variable {i : Nat} {a b c d : UInt8} {rest bs : List UInt8} {cs : List Char}

/-! ## One character of each width -/

theorem not_lt_of_toNat (h : b.toNat ≤ a.toNat) : ¬ a < b :=
  UInt8.not_lt.2 (UInt8.le_iff_toNat_le.2 h)

theorem isContinuation_of_toNat (hb : 0x80 ≤ b.toNat) (hb' : b.toNat < 0xC0) :
    isContinuation b = true := by
  simp only [isContinuation, Bool.and_eq_true, decide_eq_true_eq, UInt8.le_iff_toNat_le,
    UInt8.lt_iff_toNat_lt]
  exact ⟨hb, hb'⟩

theorem decodeFrom_one (ha : a.toNat < 0x80) :
    decodeFrom i (a :: rest) = (Char.ofNat a.toNat :: ·) <$> decodeFrom (i + 1) rest := by
  have h1 : a < 0x80 := UInt8.lt_iff_toNat_lt.2 ha
  rw [decodeFrom.eq_def]
  simp only [h1, if_true]

theorem decodeFrom_two (ha : 0xC2 ≤ a.toNat) (ha' : a.toNat < 0xE0)
    (hb : isContinuation b = true) :
    decodeFrom i (a :: b :: rest) =
      (Char.ofNat (a.toNat % 32 * 64 + low b) :: ·) <$> decodeFrom (i + 2) rest := by
  have h1 : ¬ a < 0x80 := not_lt_of_toNat (show 0x80 ≤ _ by omega)
  have h2 : ¬ a < 0xC2 := not_lt_of_toNat (show 0xC2 ≤ _ by omega)
  have h3 : a < 0xE0 := UInt8.lt_iff_toNat_lt.2 ha'
  rw [decodeFrom.eq_def]
  simp only [h1, h2, h3, hb, if_true, if_false, Bool.not_true, Bool.false_eq_true]

theorem decodeFrom_three (ha : 0xE0 ≤ a.toNat) (ha' : a.toNat < 0xF0)
    (hb : secondOfThree a b = true) (hc : isContinuation c = true) :
    decodeFrom i (a :: b :: c :: rest) =
      (Char.ofNat (a.toNat % 16 * 4096 + low b * 64 + low c) :: ·) <$>
        decodeFrom (i + 3) rest := by
  have h1 : ¬ a < 0x80 := not_lt_of_toNat (show 0x80 ≤ _ by omega)
  have h2 : ¬ a < 0xC2 := not_lt_of_toNat (show 0xC2 ≤ _ by omega)
  have h3 : ¬ a < 0xE0 := not_lt_of_toNat (show 0xE0 ≤ _ by omega)
  have h4 : a < 0xF0 := UInt8.lt_iff_toNat_lt.2 ha'
  rw [decodeFrom.eq_def]
  simp only [h1, h2, h3, h4, hb, hc, if_true, if_false, Bool.not_true, Bool.false_eq_true]

theorem decodeFrom_four (ha : 0xF0 ≤ a.toNat) (ha' : a.toNat < 0xF5)
    (hb : secondOfFour a b = true) (hc : isContinuation c = true)
    (hd : isContinuation d = true) :
    decodeFrom i (a :: b :: c :: d :: rest) =
      (Char.ofNat (a.toNat % 8 * 262144 + low b * 4096 + low c * 64 + low d) :: ·) <$>
        decodeFrom (i + 4) rest := by
  have h1 : ¬ a < 0x80 := not_lt_of_toNat (show 0x80 ≤ _ by omega)
  have h2 : ¬ a < 0xC2 := not_lt_of_toNat (show 0xC2 ≤ _ by omega)
  have h3 : ¬ a < 0xE0 := not_lt_of_toNat (show 0xE0 ≤ _ by omega)
  have h4 : ¬ a < 0xF0 := not_lt_of_toNat (show 0xF0 ≤ _ by omega)
  have h5 : a < 0xF5 := UInt8.lt_iff_toNat_lt.2 ha'
  rw [decodeFrom.eq_def]
  simp only [h1, h2, h3, h4, h5, hb, hc, hd, if_true, if_false, Bool.not_true, Bool.false_eq_true]

/-! ## What is written -/

theorem toNat_ofNat_of_lt {n : Nat} (h : n < 256) : (UInt8.ofNat n).toNat = n := by
  rw [UInt8.toNat_ofNat']; exact Nat.mod_eq_of_lt h

/-- The code points are those below the surrogates and those above them. -/
theorem toNat_range (c : Char) : c.toNat < 0xD800 ∨ 0xDFFF < c.toNat ∧ c.toNat < 0x110000 :=
  c.valid

theorem isContinuation_ofNat {n : Nat} (h : n < 64) :
    isContinuation (UInt8.ofNat (0x80 + n)) = true :=
  isContinuation_of_toNat (by rw [toNat_ofNat_of_lt (by omega)]; omega)
    (by rw [toNat_ofNat_of_lt (by omega)]; omega)

theorem low_ofNat {n : Nat} (h : n < 64) : low (UInt8.ofNat (0x80 + n)) = n := by
  rw [low, toNat_ofNat_of_lt (by omega)]; omega

/-- A three byte character is not too short for its width and is no surrogate. -/
theorem secondOfThree_ofNat {n : Nat} (hn : 0x800 ≤ n) (hn' : n < 0x10000)
    (hs : n < 0xD800 ∨ 0xDFFF < n) :
    secondOfThree (UInt8.ofNat (0xE0 + n / 4096)) (UInt8.ofNat (0x80 + n / 64 % 64)) = true := by
  have ha : (UInt8.ofNat (0xE0 + n / 4096)).toNat = 0xE0 + n / 4096 := toNat_ofNat_of_lt (by omega)
  have hb : (UInt8.ofNat (0x80 + n / 64 % 64)).toNat = 0x80 + n / 64 % 64 :=
    toNat_ofNat_of_lt (by omega)
  simp only [secondOfThree, ← UInt8.toNat_inj, ha]
  split
  · simp [UInt8.le_iff_toNat_le, UInt8.lt_iff_toNat_lt]; simp at *; omega
  split
  · simp [UInt8.le_iff_toNat_le, UInt8.lt_iff_toNat_lt]; simp at *; omega
  · exact isContinuation_ofNat (by omega)

/-- A four byte character is not too short for its width and not beyond the last code point. -/
theorem secondOfFour_ofNat {n : Nat} (hn : 0x10000 ≤ n) (hn' : n < 0x110000) :
    secondOfFour (UInt8.ofNat (0xF0 + n / 262144)) (UInt8.ofNat (0x80 + n / 4096 % 64)) = true := by
  have ha : (UInt8.ofNat (0xF0 + n / 262144)).toNat = 0xF0 + n / 262144 :=
    toNat_ofNat_of_lt (by omega)
  have hb : (UInt8.ofNat (0x80 + n / 4096 % 64)).toNat = 0x80 + n / 4096 % 64 :=
    toNat_ofNat_of_lt (by omega)
  simp only [secondOfFour, ← UInt8.toNat_inj, ha]
  split
  · simp [UInt8.le_iff_toNat_le, UInt8.lt_iff_toNat_lt]; simp at *; omega
  split
  · simp [UInt8.le_iff_toNat_le, UInt8.lt_iff_toNat_lt]; simp at *; omega
  · exact isContinuation_ofNat (by omega)

theorem decodeFrom_encodeChar (i : Nat) (c : Char) (rest : List UInt8) :
    decodeFrom i (encodeChar c ++ rest) =
      (c :: ·) <$> decodeFrom (i + (encodeChar c).length) rest := by
  have hr := toNat_range c
  have hc : ∀ {n}, n = c.toNat → Char.ofNat n = c := fun h => h ▸ Char.ofNat_toNat c
  have hn : ∀ {n}, n < 256 → (UInt8.ofNat n).toNat = n := toNat_ofNat_of_lt
  rw [encodeChar]
  by_cases h1 : c.toNat < 0x80
  · have ha := hn (by omega : c.toNat < 256)
    simp only [h1, if_true, List.cons_append, List.nil_append]
    rw [decodeFrom_one (by omega), hc ha]; rfl
  by_cases h2 : c.toNat < 0x800
  · have ha := hn (by omega : 0xC0 + c.toNat / 64 < 256)
    simp only [h1, h2, if_true, if_false, List.cons_append, List.nil_append]
    rw [decodeFrom_two (by omega) (by omega) (isContinuation_ofNat (by omega)),
      low_ofNat (by omega), ha, hc (by omega)]; rfl
  by_cases h3 : c.toNat < 0x10000
  · have ha := hn (by omega : 0xE0 + c.toNat / 4096 < 256)
    simp only [h1, h2, h3, if_true, if_false, List.cons_append, List.nil_append]
    rw [decodeFrom_three (by omega) (by omega) (secondOfThree_ofNat (by omega) h3 (by omega))
      (isContinuation_ofNat (by omega)), low_ofNat (by omega), low_ofNat (by omega), ha,
      hc (by omega)]; rfl
  · have ha := hn (by omega : 0xF0 + c.toNat / 262144 < 256)
    simp only [h1, h2, h3, if_false, List.cons_append, List.nil_append]
    rw [decodeFrom_four (by omega) (by omega) (secondOfFour_ofNat (by omega) (by omega))
      (isContinuation_ofNat (by omega)) (isContinuation_ofNat (by omega)), low_ofNat (by omega),
      low_ofNat (by omega), low_ofNat (by omega), ha, hc (by omega)]; rfl

theorem decodeFrom_encode (i : Nat) (cs : List Char) : decodeFrom i (encode cs) = .ok cs := by
  induction cs generalizing i with
  | nil => rfl
  | cons c cs ih =>
    rw [encode, List.flatMap_cons, decodeFrom_encodeChar]
    exact congrArg _ (ih _)

@[simp] theorem decode_encode (cs : List Char) : decode (encode cs) = .ok cs :=
  decodeFrom_encode 0 cs

@[simp] theorem string_bytes (s : String) : string (bytes s) = .ok s := by
  rw [string, bytes, decode_encode]
  exact congrArg _ (String.ofList_toList ..)

/-! ## What is read is written -/

theorem toNat_charOfNat {n : Nat} (h : n < 0xD800 ∨ 0xDFFF < n ∧ n < 0x110000) :
    (Char.ofNat n).toNat = n := by
  rw [Char.ofNat, dif_pos h]
  rfl

theorem ofNat_eq_of_toNat {n : Nat} (h : n = a.toNat) : UInt8.ofNat n = a := by
  rw [h, UInt8.ofNat_toNat]

theorem toNat_of_isContinuation (h : isContinuation b = true) :
    0x80 ≤ b.toNat ∧ b.toNat < 0xC0 := by
  simpa [isContinuation, UInt8.le_iff_toNat_le, UInt8.lt_iff_toNat_lt] using h

theorem toNat_of_secondOfThree (h : secondOfThree a b = true) : 0x80 ≤ b.toNat ∧ b.toNat < 0xC0 ∧
    (a.toNat = 0xE0 → 0xA0 ≤ b.toNat) ∧ (a.toNat = 0xED → b.toNat < 0xA0) := by
  unfold secondOfThree at h
  simp only [← UInt8.toNat_inj] at h
  split at h
  · simp [UInt8.le_iff_toNat_le, UInt8.lt_iff_toNat_lt] at *
    omega
  split at h
  · simp [UInt8.le_iff_toNat_le, UInt8.lt_iff_toNat_lt] at *
    omega
  · have := toNat_of_isContinuation h
    simp at *
    omega

theorem toNat_of_secondOfFour (h : secondOfFour a b = true) : 0x80 ≤ b.toNat ∧ b.toNat < 0xC0 ∧
    (a.toNat = 0xF0 → 0x90 ≤ b.toNat) ∧ (a.toNat = 0xF4 → b.toNat < 0x90) := by
  unfold secondOfFour at h
  simp only [← UInt8.toNat_inj] at h
  split at h
  · simp [UInt8.le_iff_toNat_le, UInt8.lt_iff_toNat_lt] at *
    omega
  split at h
  · simp [UInt8.le_iff_toNat_le, UInt8.lt_iff_toNat_lt] at *
    omega
  · have := toNat_of_isContinuation h
    simp at *
    omega

theorem encodeChar_one (ha : a.toNat < 0x80) : encodeChar (Char.ofNat a.toNat) = [a] := by
  have hn := toNat_charOfNat (n := a.toNat) (.inl (by omega))
  simp only [encodeChar, hn, ha, if_true, UInt8.ofNat_toNat]

theorem encodeChar_two (ha : 0xC2 ≤ a.toNat) (ha' : a.toNat < 0xE0) (hb : isContinuation b = true) :
    encodeChar (Char.ofNat (a.toNat % 32 * 64 + low b)) = [a, b] := by
  obtain ⟨hb, hb'⟩ := toNat_of_isContinuation hb
  obtain ⟨n, hn⟩ : ∃ n, a.toNat % 32 * 64 + low b = n := ⟨_, rfl⟩
  unfold low at hn
  have hchar := toNat_charOfNat (n := n) (.inl (by omega))
  rw [low, hn, encodeChar, hchar, if_neg (by omega), if_pos (by omega)]
  rw [ofNat_eq_of_toNat (a := a) (by omega), ofNat_eq_of_toNat (a := b) (by omega)]

theorem encodeChar_three (ha : 0xE0 ≤ a.toNat) (ha' : a.toNat < 0xF0)
    (hb : secondOfThree a b = true) (hc : isContinuation c = true) :
    encodeChar (Char.ofNat (a.toNat % 16 * 4096 + low b * 64 + low c)) = [a, b, c] := by
  obtain ⟨hb, hb', hlong, hsurrogate⟩ := toNat_of_secondOfThree hb
  obtain ⟨hc, hc'⟩ := toNat_of_isContinuation hc
  obtain ⟨n, hn⟩ : ∃ n, a.toNat % 16 * 4096 + low b * 64 + low c = n := ⟨_, rfl⟩
  unfold low at hn
  have hchar := toNat_charOfNat (n := n) (by omega)
  rw [low, low, hn, encodeChar, hchar, if_neg (by omega), if_neg (by omega), if_pos (by omega)]
  rw [ofNat_eq_of_toNat (a := a) (by omega), ofNat_eq_of_toNat (a := b) (by omega),
    ofNat_eq_of_toNat (a := c) (by omega)]

theorem encodeChar_four (ha : 0xF0 ≤ a.toNat) (ha' : a.toNat < 0xF5)
    (hb : secondOfFour a b = true) (hc : isContinuation c = true) (hd : isContinuation d = true) :
    encodeChar (Char.ofNat (a.toNat % 8 * 262144 + low b * 4096 + low c * 64 + low d)) =
      [a, b, c, d] := by
  obtain ⟨hb, hb', hlong, hlast⟩ := toNat_of_secondOfFour hb
  obtain ⟨hc, hc'⟩ := toNat_of_isContinuation hc
  obtain ⟨hd, hd'⟩ := toNat_of_isContinuation hd
  obtain ⟨n, hn⟩ : ∃ n, a.toNat % 8 * 262144 + low b * 4096 + low c * 64 + low d = n := ⟨_, rfl⟩
  unfold low at hn
  have hchar := toNat_charOfNat (n := n) (by omega)
  rw [low, low, low, hn, encodeChar, hchar, if_neg (by omega), if_neg (by omega), if_neg (by omega)]
  rw [ofNat_eq_of_toNat (a := a) (by omega), ofNat_eq_of_toNat (a := b) (by omega),
    ofNat_eq_of_toNat (a := c) (by omega), ofNat_eq_of_toNat (a := d) (by omega)]

theorem encode_cons (x : Char) (cs : List Char) : encode (x :: cs) = encodeChar x ++ encode cs :=
  List.flatMap_cons

theorem encode_of_decodeFrom (h : decodeFrom i bs = .ok cs) : encode cs = bs := by
  have hle {a b : UInt8} (h : ¬ a < b) : b.toNat ≤ a.toNat :=
    UInt8.le_iff_toNat_le.1 (UInt8.not_lt.1 h)
  have hlt {a b : UInt8} (h : a < b) : a.toNat < b.toNat := UInt8.lt_iff_toNat_lt.1 h
  have htrue {t : Bool} (h : ¬ (!t) = true) : t = true := by simpa using h
  fun_induction decodeFrom i bs generalizing cs with
  | case1 =>
    cases h
    rfl
  | case2 i a rest h1 ih =>
    obtain ⟨cs, hrest, rfl⟩ := except_map_eq_ok.1 h
    rw [encode_cons, encodeChar_one (hlt h1), ih hrest]
    rfl
  | case6 i a h1 h2 h3 b rest hb ih =>
    obtain ⟨cs, hrest, rfl⟩ := except_map_eq_ok.1 h
    rw [encode_cons, encodeChar_two (hle h2) (hlt h3) (htrue hb), ih hrest]
    rfl
  | case11 i a h1 h2 h3 h4 b hb c rest hc ih =>
    obtain ⟨cs, hrest, rfl⟩ := except_map_eq_ok.1 h
    rw [encode_cons, encodeChar_three (hle h3) (hlt h4) (htrue hb) (htrue hc), ih hrest]
    rfl
  | case18 i a h1 h2 h3 h4 h5 b hb c hc d rest hd ih =>
    obtain ⟨cs, hrest, rfl⟩ := except_map_eq_ok.1 h
    rw [encode_cons, encodeChar_four (hle h4) (hlt h5) (htrue hb) (htrue hc) (htrue hd), ih hrest]
    rfl
  | _ => cases h

/-- Bytes are read as a text if, and only if, they are what is written for it. -/
theorem decode_eq_ok : decode bs = .ok cs ↔ encode cs = bs := by
  refine ⟨encode_of_decodeFrom, ?_⟩
  rintro rfl
  exact decode_encode cs

/-! ## ASCII -/

/-- Each byte of ASCII is the character that it stands for. -/
theorem bytes_ascii {bs : List UInt8} (h : ∀ b ∈ bs, b < 0x80) : bytes (ascii bs) = bs := by
  rw [bytes, ascii, String.toList_ofList]
  induction bs with
  | nil => rfl
  | cons b bs ih =>
    obtain ⟨hb, hbs⟩ := List.forall_mem_cons.1 h
    rw [List.map_cons, encode_cons, encodeChar_one (UInt8.lt_iff_toNat_lt.1 hb), ih hbs]
    rfl

end VaultAgent.Utf8
