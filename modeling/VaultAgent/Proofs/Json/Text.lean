import VaultAgent.Json.Text
import VaultAgent.Proofs.Text.Utf8

/-!
# Strings in JSON, read back

`escape` writes a body that `scan` takes off whole and that `unescape?` gives its meaning back. Both
go byte by byte: what `escapeByte` writes for a byte is a letter, a number or the byte itself, and
each of the three is read as that byte. What `scan` takes off stands before a quote and has no control
in it.
-/

namespace VaultAgent.Json

variable {b : UInt8} {rest : List UInt8}

/-! ## One byte -/

theorem letterValue?_of_letterFor? {l : UInt8} (h : letterFor? b = some l) :
    l ≠ 117 ∧ letterValue? l = some b := by
  unfold letterFor? at h
  split_ifs at h <;> cases h <;> subst b <;> decide

theorem ne_of_letterFor?_eq_none (h : letterFor? b = none) : b ≠ quote ∧ b ≠ backslash := by
  constructor <;> rintro rfl <;> exact absurd h (by decide)

/-- A control is written as the number that it is. -/
theorem hexUnit?_control (h : b < 0x20) :
    hexUnit? 48 48 (hexDigit (b.toNat / 16)) (hexDigit (b.toNat % 16)) = some b.toNat := by
  have hb : b.toNat < 0x20 := UInt8.lt_iff_toNat_lt.1 h
  have h0 : hexValue? 48 = some 0 := by decide
  simp only [hexUnit?, h0, hexValue?_hexDigit _ (by omega : b.toNat / 16 < 16),
    hexValue?_hexDigit _ (by omega : b.toNat % 16 < 16)]
  exact congrArg some (by omega)

theorem encodeChar_control (h : b < 0x20) : Utf8.encodeChar (Char.ofNat b.toNat) = [b] := by
  have hb : b.toNat < 0x20 := UInt8.lt_iff_toNat_lt.1 h
  exact Utf8.encodeChar_one (by omega)

theorem scan_escapeByte (b : UInt8) (rest : List UInt8) :
    scan (escapeByte b ++ rest) =
      (scan rest).map fun (body, rest) => (escapeByte b ++ body, rest) := by
  unfold escapeByte
  split
  · rename_i l h
    obtain ⟨hu, hl⟩ := letterValue?_of_letterFor? h
    simp only [List.cons_append, List.nil_append]
    rw [scan.eq_def]
    simp [backslash, quote, hu, hl]
  · rename_i h
    obtain ⟨hq, hs⟩ := ne_of_letterFor?_eq_none h
    split
    · rename_i hb
      simp only [List.cons_append, List.nil_append]
      rw [scan.eq_def]
      simp [backslash, quote, hexUnit?_control hb]
    · rename_i hb
      simp only [List.cons_append, List.nil_append]
      rw [scan.eq_def]
      simp [hq, hs, hb]

theorem unescapeBytes?_escapeByte (b : UInt8) (rest : List UInt8) :
    unescapeBytes? (escapeByte b ++ rest) = (b :: ·) <$> unescapeBytes? rest := by
  unfold escapeByte
  split
  · rename_i l h
    obtain ⟨hu, hl⟩ := letterValue?_of_letterFor? h
    simp only [List.cons_append, List.nil_append]
    rw [unescapeBytes?.eq_def]
    simp [hu, hl]
  · rename_i h
    obtain ⟨hq, hs⟩ := ne_of_letterFor?_eq_none h
    split
    · rename_i hb
      have hn : b.toNat < 0xD800 := by have := UInt8.lt_iff_toNat_lt.1 hb; simp at this; omega
      simp only [List.cons_append, List.nil_append]
      rw [unescapeBytes?.eq_def]
      simp [hexUnit?_control hb, hn, encodeChar_control hb]
    · simp only [List.cons_append, List.nil_append]
      rw [unescapeBytes?.eq_def]
      simp [hs]

/-! ## A whole text -/

theorem scan_flatMap_escapeByte (bytes rest : List UInt8) :
    scan (bytes.flatMap escapeByte ++ quote :: rest) = some (bytes.flatMap escapeByte, rest) := by
  induction bytes with
  | nil => simp [scan.eq_def (quote :: rest)]
  | cons b bytes ih => rw [List.flatMap_cons, List.append_assoc, scan_escapeByte, ih]; rfl

theorem unescapeBytes?_flatMap_escapeByte (bytes : List UInt8) :
    unescapeBytes? (bytes.flatMap escapeByte) = some bytes := by
  induction bytes with
  | nil => simp [unescapeBytes?]
  | cons b bytes ih => rw [List.flatMap_cons, unescapeBytes?_escapeByte, ih]; rfl

theorem scan_escape (s : String) (rest : List UInt8) :
    scan (escape s ++ quote :: rest) = some (escape s, rest) :=
  scan_flatMap_escapeByte _ _

@[simp] theorem unescape?_escape (s : String) : unescape? (escape s) = some s := by
  rw [unescape?, escape, unescapeBytes?_flatMap_escapeByte]
  simp

@[simp] theorem text?_ofText (s : String) : (ofText s).text? = some s :=
  unescape?_escape s

/-! ## What is taken off -/

/-- What is taken off up to a quote is taken off in front of any other quote. -/
theorem scan_split {bytes body : List UInt8} (h : scan bytes = some (body, rest)) :
    bytes = body ++ quote :: rest ∧ ∀ rest, scan (body ++ quote :: rest) = some (body, rest) := by
  fun_induction scan bytes generalizing body with
  | case1 | case3 | case5 | case6 | case8 | case9 => cases h
  | case2 =>
    cases h
    exact ⟨rfl, fun rest => by simp [scan.eq_def (quote :: rest)]⟩
  | case4 h₁ h₂ h₃ h₄ more hunit hquote ih =>
    obtain ⟨⟨body', rest'⟩, hscan, h⟩ := Option.map_eq_some_iff.1 h
    cases h
    obtain ⟨rfl, hbody⟩ := ih hscan
    refine ⟨rfl, fun rest => ?_⟩
    simp only [List.cons_append]
    rw [scan.eq_def]
    simp [hunit, hquote, hbody rest]
  | case7 letter more hu hletter hquote ih =>
    obtain ⟨⟨body', rest'⟩, hscan, h⟩ := Option.map_eq_some_iff.1 h
    cases h
    obtain ⟨rfl, hbody⟩ := ih hscan
    refine ⟨rfl, fun rest => ?_⟩
    simp only [List.cons_append]
    rw [scan.eq_def]
    simp [hu, hletter, hquote, hbody rest]
  | case10 c more hquote hb hcontrol ih =>
    obtain ⟨⟨body', rest'⟩, hscan, h⟩ := Option.map_eq_some_iff.1 h
    cases h
    obtain ⟨rfl, hbody⟩ := ih hscan
    refine ⟨rfl, fun rest => ?_⟩
    simp only [List.cons_append]
    rw [scan.eq_def]
    simp [hquote, hb, hcontrol, hbody rest]

/-! ## No controls -/

theorem not_control_of_hexValue? (h : (hexValue? b).isSome = true) : ¬ b < 0x20 := by
  intro hb
  have hlt : b.toNat < 32 := UInt8.lt_iff_toNat_lt.1 hb
  have hnone : hexValue? b = none := by
    simp only [hexValue?, Bool.and_eq_true, decide_eq_true_eq]
    rw [if_neg (by omega), if_neg (by omega), if_neg (by omega)]
  rw [hnone] at h
  cases h

theorem not_control_of_hexUnit? {h₁ h₂ h₃ h₄ : UInt8} (h : (hexUnit? h₁ h₂ h₃ h₄).isSome = true) :
    ∀ b ∈ [h₁, h₂, h₃, h₄], ¬ b < 0x20 := by
  obtain ⟨n, h⟩ := Option.isSome_iff_exists.1 h
  obtain ⟨v₁, hv₁, h⟩ := Option.bind_eq_some_iff.1 h
  obtain ⟨v₂, hv₂, h⟩ := Option.bind_eq_some_iff.1 h
  obtain ⟨v₃, hv₃, h⟩ := Option.bind_eq_some_iff.1 h
  obtain ⟨v₄, hv₄, -⟩ := Option.bind_eq_some_iff.1 h
  have hall : ∀ b ∈ [h₁, h₂, h₃, h₄], (hexValue? b).isSome = true := by simp [hv₁, hv₂, hv₃, hv₄]
  exact fun b hb => not_control_of_hexValue? (hall b hb)

theorem not_control_of_letterValue? (h : (letterValue? b).isSome = true) : ¬ b < 0x20 := by
  intro hb
  have hnone : ∀ n : Fin 32, letterValue? (UInt8.ofNat n.val) = none := by decide
  have hb' := hnone ⟨b.toNat, UInt8.lt_iff_toNat_lt.1 hb⟩
  rw [UInt8.ofNat_toNat] at hb'
  rw [hb'] at h
  cases h

theorem not_control_of_scan {bytes body : List UInt8} (h : scan bytes = some (body, rest)) :
    ∀ b ∈ body, ¬ b < 0x20 := by
  have hbackslash : ¬ backslash < 0x20 := by decide
  fun_induction scan bytes generalizing body with
  | case1 | case3 | case5 | case6 | case8 | case9 => cases h
  | case2 =>
    cases h
    exact nofun
  | case4 h₁ h₂ h₃ h₄ more hunit hquote ih =>
    obtain ⟨⟨body', rest'⟩, hscan, h⟩ := Option.map_eq_some_iff.1 h
    cases h
    show ∀ b ∈ backslash :: 117 :: ([h₁, h₂, h₃, h₄] ++ body'), ¬ b < 0x20
    have hmore := List.forall_mem_append.2 ⟨not_control_of_hexUnit? hunit, ih hscan⟩
    exact List.forall_mem_cons.2 ⟨hbackslash, List.forall_mem_cons.2 ⟨by decide, hmore⟩⟩
  | case7 letter more hu hletter hquote ih =>
    obtain ⟨⟨body', rest'⟩, hscan, h⟩ := Option.map_eq_some_iff.1 h
    cases h
    exact List.forall_mem_cons.2 ⟨hbackslash,
      List.forall_mem_cons.2 ⟨not_control_of_letterValue? hletter, ih hscan⟩⟩
  | case10 c more hquote hb hcontrol ih =>
    obtain ⟨⟨body', rest'⟩, hscan, h⟩ := Option.map_eq_some_iff.1 h
    cases h
    exact List.forall_mem_cons.2 ⟨hcontrol, ih hscan⟩

end VaultAgent.Json
