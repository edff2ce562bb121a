import VaultAgent.Json.Parser
import VaultAgent.Json.Record
import Mathlib.Data.List.Basic
import Mathlib.Data.List.TakeWhile
import Mathlib.Tactic.Common

/-!
# Numbers in JSON

A number is read as far as it goes on. So a text that is a number as a whole is also read off the
front of a longer one, if what follows it is no digit, point or exponent (`numberText_append`), and
what is read off is a number as a whole (`numberText_split`). The decimal digits of a whole number are
such a text (`isNumber_toString`), and `word?` gives the number back.
-/

namespace VaultAgent.Json

/-- The text of a number. -/
def IsNumber (text : List UInt8) : Prop :=
  numberText text = some (text, [])

/-- What follows a value: the end, or a byte with which no number goes on. -/
def Ends (rest : List UInt8) : Prop :=
  ∀ b ∈ rest.head?, isDigit b = false ∧ b ≠ 46 ∧ b ≠ 101 ∧ b ≠ 69

variable {bytes text ds es fs r rest : List UInt8}

theorem Ends.of_cons {b : UInt8} (hb : isDigit b = false ∧ b ≠ 46 ∧ b ≠ 101 ∧ b ≠ 69) :
    Ends (b :: rest) := by
  rintro c ⟨⟩; exact hb

/-! ## The parts of a number -/

theorem Ends.takeWhile (h : Ends rest) (bytes : List UInt8) :
    (bytes ++ rest).takeWhile isDigit = bytes.takeWhile isDigit ∧
      (bytes ++ rest).dropWhile isDigit = bytes.dropWhile isDigit ++ rest := by
  induction bytes with
  | nil =>
    cases rest with
    | nil => simp
    | cons b rest => simp [(h b rfl).1]
  | cons b bytes ih => by_cases hb : isDigit b = true <;> simp [hb, ih]

theorem digits_eq_some :
    digits bytes = some (ds, r) ↔
      ds ≠ [] ∧ bytes.takeWhile isDigit = ds ∧ bytes.dropWhile isDigit = r := by
  unfold digits
  split
  · rename_i h; simp only [h, reduceCtorEq, false_iff]
    rintro ⟨hd, rfl, -⟩; exact hd rfl
  · rename_i h; simp only [Option.some.injEq, Prod.mk.injEq]
    constructor
    · rintro ⟨rfl, rfl⟩; exact ⟨h, rfl, rfl⟩
    · rintro ⟨-, rfl, rfl⟩; exact ⟨rfl, rfl⟩

theorem digits_append (hr : Ends rest) (h : digits bytes = some (ds, r)) :
    digits (bytes ++ rest) = some (ds, r ++ rest) := by
  obtain ⟨hne, rfl, rfl⟩ := digits_eq_some.1 h
  exact digits_eq_some.2 ⟨hne, hr.takeWhile bytes⟩

theorem wholePart_eq_some : wholePart bytes = some (ds, r) ↔
    digits bytes = some (ds, r) ∧ ¬ (ds.head? = some 48 ∧ ds.length ≠ 1) := by
  rw [wholePart]
  constructor
  · intro h
    obtain ⟨⟨ds', r'⟩, hd, h⟩ := Option.bind_eq_some_iff.1 h
    simp only at h
    split at h
    · cases h
    · rename_i hz
      cases h
      exact ⟨hd, hz⟩
  · rintro ⟨hd, hz⟩
    rw [hd]
    exact if_neg hz

theorem wholePart_append (hr : Ends rest) (h : wholePart bytes = some (ds, r)) :
    wholePart (bytes ++ rest) = some (ds, r ++ rest) := by
  obtain ⟨hd, hz⟩ := wholePart_eq_some.1 h
  exact wholePart_eq_some.2 ⟨digits_append hr hd, hz⟩

theorem fraction_append (hr : Ends rest) (h : fraction bytes = some (ds, r)) :
    fraction (bytes ++ rest) = some (ds, r ++ rest) := by
  unfold fraction at h
  split at h
  · obtain ⟨⟨ds', r'⟩, hd, h⟩ := Option.bind_eq_some_iff.1 h
    cases h
    simp [fraction, digits_append hr hd]
  · rename_i hne
    cases h
    unfold fraction
    split
    · rename_i r' heq
      exfalso
      cases bytes with
      | nil => exact (hr 46 (by rw [List.nil_append] at heq; simp [heq])).2.1 rfl
      | cons b bytes => obtain ⟨rfl, -⟩ := List.cons.inj heq; exact hne bytes rfl
    · rfl

theorem exponent_append (hr : Ends rest) (h : exponent bytes = some (ds, r)) :
    exponent (bytes ++ rest) = some (ds, r ++ rest) := by
  cases bytes with
  | nil =>
    cases h
    cases rest with
    | nil => rfl
    | cons b rest => simp [exponent, (hr b rfl).2.2]
  | cons e bytes =>
    simp only [exponent, List.cons_append] at h ⊢
    split at h
    · rename_i he
      rw [if_pos he]
      cases bytes with
      | nil => cases h
      | cons s bytes =>
        simp only [List.cons_append] at h ⊢
        split at h
        · rename_i hs
          obtain ⟨⟨ds', r'⟩, hd, h⟩ := Option.bind_eq_some_iff.1 h
          cases h
          simp [hs, digits_append hr hd]
        · rename_i hs
          obtain ⟨⟨ds', r'⟩, hd, h⟩ := Option.bind_eq_some_iff.1 h
          cases h
          have hd' := digits_append hr hd
          rw [List.cons_append] at hd'
          simp [hs, hd']
    · rename_i he
      cases h
      rw [if_neg he]; rfl

/-! ## The whole of it -/

theorem sign_append (hne : bytes ≠ []) (rest : List UInt8) :
    sign (bytes ++ rest) = ((sign bytes).1, (sign bytes).2 ++ rest) := by
  cases bytes with
  | nil => exact absurd rfl hne
  | cons b bytes =>
    by_cases hb : b = 45
    · subst hb; rfl
    · simp [sign, hb]

theorem IsNumber.ne_nil (h : IsNumber text) : text ≠ [] := by
  rintro rfl; cases h

theorem numberText_eq_some :
    numberText bytes = some (text, r) ↔ ∃ ws r₁ fs r₂ es,
      wholePart (sign bytes).2 = some (ws, r₁) ∧ fraction r₁ = some (fs, r₂) ∧
        exponent r₂ = some (es, r) ∧ (sign bytes).1 ++ ws ++ fs ++ es = text := by
  rw [numberText]
  constructor
  · intro h
    obtain ⟨⟨ws, r₁⟩, hw, h⟩ := Option.bind_eq_some_iff.1 h
    obtain ⟨⟨fs, r₂⟩, hf, h⟩ := Option.bind_eq_some_iff.1 h
    obtain ⟨⟨es, r₃⟩, he, h⟩ := Option.bind_eq_some_iff.1 h
    cases h
    exact ⟨ws, r₁, fs, r₂, es, hw, hf, he, rfl⟩
  · rintro ⟨ws, r₁, fs, r₂, es, hw, hf, he, rfl⟩
    simp [hw, hf, he]

theorem numberText_append (h : IsNumber text) (hr : Ends rest) :
    numberText (text ++ rest) = some (text, rest) := by
  obtain ⟨ws, r₁, fs, r₂, es, hw, hf, he, ht⟩ := numberText_eq_some.1 h
  rw [numberText_eq_some, sign_append h.ne_nil]
  exact ⟨ws, _, fs, _, es, wholePart_append hr hw, fraction_append hr hf, exponent_append hr he, ht⟩

/-- A number begins with its sign or a digit. -/
theorem IsNumber.head (h : IsNumber text) :
    ∃ b bytes, text = b :: bytes ∧ (b = 45 ∨ isDigit b = true) := by
  obtain ⟨b, bytes, rfl⟩ := List.exists_cons_of_ne_nil h.ne_nil
  refine ⟨b, bytes, rfl, or_iff_not_imp_left.2 fun hb => ?_⟩
  obtain ⟨ws, r₁, -, -, -, hw, -⟩ := numberText_eq_some.1 h
  obtain ⟨⟨ds, r₂⟩, hd, -⟩ := Option.bind_eq_some_iff.1 hw
  have hs : (sign (b :: bytes)).2 = b :: bytes := by simp [sign, hb]
  rw [hs] at hd
  obtain ⟨hne, rfl, -⟩ := digits_eq_some.1 hd
  by_contra hb
  exact hne (by simp [hb])

/-! ## What is taken off

Each part is taken off the front, and it would be taken off just so if less followed. -/

theorem digits_split (h : digits bytes = some (ds, r ++ rest)) :
    bytes = ds ++ r ++ rest ∧ digits (ds ++ r) = some (ds, r) := by
  obtain ⟨hne, htake, hdrop⟩ := digits_eq_some.1 h
  have hds : ∀ b ∈ ds, isDigit b = true := by
    rw [← htake]
    exact fun b hb => List.mem_takeWhile_imp hb
  have hr : ∀ b ∈ r.head?, isDigit b = false := by
    intro b hb
    obtain ⟨more, rfl⟩ := List.head?_eq_some_iff.1 hb
    have hhead := List.head?_dropWhile_not isDigit bytes
    rw [hdrop] at hhead
    simpa using hhead
  refine ⟨?_, digits_eq_some.2 ⟨hne, ?_, ?_⟩⟩
  · rw [List.append_assoc, ← htake, ← hdrop, List.takeWhile_append_dropWhile]
  · cases r with
    | nil => simpa using hds
    | cons b r => simp [List.takeWhile_append_of_pos hds, hr b rfl]
  · cases r with
    | nil => simpa using hds
    | cons b r => simp [List.dropWhile_append_of_pos hds, hr b rfl]

theorem wholePart_split (h : wholePart bytes = some (ds, r ++ rest)) :
    bytes = ds ++ r ++ rest ∧ wholePart (ds ++ r) = some (ds, r) := by
  obtain ⟨hd, hz⟩ := wholePart_eq_some.1 h
  obtain ⟨hbytes, hd⟩ := digits_split hd
  exact ⟨hbytes, wholePart_eq_some.2 ⟨hd, hz⟩⟩

theorem fraction_split (h : fraction bytes = some (fs, r ++ rest)) :
    bytes = fs ++ r ++ rest ∧ fraction (fs ++ r) = some (fs, r) := by
  unfold fraction at h
  split at h
  · obtain ⟨⟨ds, r'⟩, hd, h⟩ := Option.bind_eq_some_iff.1 h
    cases h
    obtain ⟨rfl, hdigits⟩ := digits_split hd
    exact ⟨rfl, by simp [fraction, hdigits]⟩
  · rename_i hne
    cases h
    refine ⟨rfl, ?_⟩
    unfold fraction
    split
    · rename_i more heq
      exact absurd (congrArg (· ++ rest) heq) (hne _)
    · rfl

theorem exponent_split (h : exponent bytes = some (es, rest)) :
    bytes = es ++ rest ∧ exponent es = some (es, []) := by
  cases bytes with
  | nil =>
    cases h
    exact ⟨rfl, rfl⟩
  | cons e bytes =>
    simp only [exponent] at h
    split at h
    · rename_i he
      cases bytes with
      | nil => cases h
      | cons s bytes =>
        simp only at h
        split at h
        · rename_i hs
          obtain ⟨⟨ds, r⟩, hd, h⟩ := Option.bind_eq_some_iff.1 h
          cases h
          obtain ⟨rfl, hdigits⟩ := digits_split (r := []) hd
          rw [List.append_nil] at hdigits
          exact ⟨by simp, by simp [exponent, he, hs, hdigits]⟩
        · rename_i hs
          obtain ⟨⟨ds, r⟩, hd, h⟩ := Option.bind_eq_some_iff.1 h
          cases h
          obtain ⟨hbytes, hdigits⟩ := digits_split (r := []) hd
          rw [List.append_nil] at hbytes hdigits
          obtain ⟨s', ds, rfl⟩ := List.exists_cons_of_ne_nil (digits_eq_some.1 hdigits).1
          obtain ⟨rfl, rfl⟩ := List.cons.inj hbytes
          exact ⟨rfl, by simp [exponent, he, hs, hdigits]⟩
    · cases h
      exact ⟨rfl, rfl⟩

theorem sign_split (bytes : List UInt8) : (sign bytes).1 ++ (sign bytes).2 = bytes := by
  unfold sign
  split <;> rfl

/-- What is read as a number is one by itself. -/
theorem numberText_split (h : numberText bytes = some (text, rest)) :
    bytes = text ++ rest ∧ IsNumber text := by
  obtain ⟨ws, r₁, fs, r₂, es, hw, hf, he, ht⟩ := numberText_eq_some.1 h
  obtain ⟨rfl, hexponent⟩ := exponent_split he
  obtain ⟨rfl, hfraction⟩ := fraction_split hf
  obtain ⟨hbytes, hwhole⟩ := wholePart_split hw
  have hsplit : bytes = text ++ rest := by
    rw [← sign_split bytes, hbytes, ← ht]
    simp only [List.append_assoc]
  have hne : text ≠ [] := by
    obtain ⟨hd, -⟩ := wholePart_eq_some.1 hwhole
    simp [← ht, (digits_eq_some.1 hd).1]
  -- The sign is that of the text, so the text begins with what is left of it behind the sign.
  have hsign := sign_append hne rest
  rw [← hsplit] at hsign
  have hrest : (sign text).2 = ws ++ (fs ++ es) := by
    rw [hsign] at hbytes
    exact List.append_cancel_right hbytes
  refine ⟨hsplit, numberText_eq_some.2 ⟨ws, fs ++ es, fs, es, es, ?_, hfraction, hexponent, ?_⟩⟩
  · rw [hrest, hwhole]
  · rw [hsign] at ht
    exact ht

/-! ## No controls -/

theorem not_control_of_isDigit {b : UInt8} (h : isDigit b = true) : ¬ b < 0x20 := by
  simp only [isDigit, Bool.and_eq_true, decide_eq_true_eq] at h
  exact UInt8.not_lt.2 (UInt8.le_trans (by decide) h.1)

theorem not_control_of_digits (h : digits bytes = some (ds, r)) : ∀ b ∈ ds, ¬ b < 0x20 := by
  obtain ⟨-, rfl, -⟩ := digits_eq_some.1 h
  exact fun b hb => not_control_of_isDigit (List.mem_takeWhile_imp hb)

theorem not_control_of_wholePart (h : wholePart bytes = some (ds, r)) : ∀ b ∈ ds, ¬ b < 0x20 :=
  not_control_of_digits (wholePart_eq_some.1 h).1

theorem not_control_of_fraction (h : fraction bytes = some (ds, r)) : ∀ b ∈ ds, ¬ b < 0x20 := by
  unfold fraction at h
  split at h
  · obtain ⟨⟨ds', r'⟩, hd, h⟩ := Option.bind_eq_some_iff.1 h
    cases h
    exact List.forall_mem_cons.2 ⟨by decide, not_control_of_digits hd⟩
  · cases h
    exact nofun

theorem not_control_of_exponent (h : exponent bytes = some (ds, r)) : ∀ b ∈ ds, ¬ b < 0x20 := by
  have hletter {e : UInt8} (he : e = 101 ∨ e = 69) : ¬ e < 0x20 := by
    rcases he with rfl | rfl <;> decide
  have hsign {s : UInt8} (hs : s = 43 ∨ s = 45) : ¬ s < 0x20 := by
    rcases hs with rfl | rfl <;> decide
  unfold exponent at h
  split at h
  · split at h
    · rename_i he
      split at h
      · split at h
        · rename_i hs
          obtain ⟨⟨ds', r'⟩, hd, h⟩ := Option.bind_eq_some_iff.1 h
          cases h
          exact List.forall_mem_cons.2
            ⟨hletter he, List.forall_mem_cons.2 ⟨hsign hs, not_control_of_digits hd⟩⟩
        · obtain ⟨⟨ds', r'⟩, hd, h⟩ := Option.bind_eq_some_iff.1 h
          cases h
          exact List.forall_mem_cons.2 ⟨hletter he, not_control_of_digits hd⟩
      · cases h
    · cases h
      exact nofun
  · cases h
    exact nofun

theorem not_control_of_sign (bytes : List UInt8) : ∀ b ∈ (sign bytes).1, ¬ b < 0x20 := by
  unfold sign
  split
  · exact List.forall_mem_singleton.2 (by decide)
  · exact nofun

theorem IsNumber.not_control (h : IsNumber text) : ∀ b ∈ text, ¬ b < 0x20 := by
  obtain ⟨ws, r₁, fs, r₂, es, hw, hf, he, ht⟩ := numberText_eq_some.1 h
  intro b hb
  rw [← ht] at hb
  simp only [List.mem_append] at hb
  rcases hb with ((hb | hb) | hb) | hb
  · exact not_control_of_sign text b hb
  · exact not_control_of_wholePart hw b hb
  · exact not_control_of_fraction hf b hb
  · exact not_control_of_exponent he b hb

/-! ## Whole numbers -/

theorem ascii_toString (n : Nat) :
    ascii (toString n) = (Nat.toDigits 10 n).map fun c => UInt8.ofNat c.toNat := by
  rw [ascii, Nat.toString_eq_ofList_toDigits, String.toList_ofList]

theorem toNat_of_isDigit {c : Char} (h : c.isDigit = true) :
    (UInt8.ofNat c.toNat).toNat = c.toNat ∧ 48 ≤ c.toNat ∧ c.toNat ≤ 57 := by
  obtain ⟨hle, hge⟩ : 48 ≤ c.toNat ∧ c.toNat ≤ 57 := by
    simpa [Char.isDigit, UInt32.le_iff_toNat_le] using h
  refine ⟨?_, hle, hge⟩
  rw [UInt8.toNat_ofNat']
  omega

theorem isDigit_of_mem_toString {n : Nat} {b : UInt8} (h : b ∈ ascii (toString n)) :
    isDigit b = true := by
  rw [ascii_toString] at h
  obtain ⟨c, hc, rfl⟩ := List.mem_map.1 h
  have hdigit := Nat.isDigit_of_mem_toDigits (by decide) le_rfl hc
  obtain ⟨heq, hle, hge⟩ := toNat_of_isDigit hdigit
  simp only [isDigit, Bool.and_eq_true, decide_eq_true_eq, UInt8.le_iff_toNat_le, heq]
  exact ⟨hle, hge⟩

/-- Only zero begins with a zero. -/
theorem eq_zero_of_head_toDigits {n : Nat} (h : (Nat.toDigits 10 n).head? = some '0') : n = 0 := by
  induction n using Nat.strong_induction_on with
  | _ n ih =>
    rcases Nat.lt_or_ge n 10 with hlt | hge
    · rw [Nat.toDigits_of_lt_base hlt] at h
      have hall : ∀ d : Fin 10, [Nat.digitChar d].head? = some '0' → d.val = 0 := by decide
      exact hall ⟨n, hlt⟩ h
    · have hlead : (Nat.toDigits 10 n).head? = (Nat.toDigits 10 (n / 10)).head? := by
        rw [Nat.toDigits_of_base_le (by decide) hge]
        exact List.head?_append_of_ne_nil _ Nat.toDigits_ne_nil
      have hzero := ih (n / 10) (by omega) (hlead ▸ h)
      omega

theorem wholePart_toString (n : Nat) :
    wholePart (ascii (toString n)) = some (ascii (toString n), []) := by
  have hdigits : digits (ascii (toString n)) = some (ascii (toString n), []) := by
    refine digits_eq_some.2 ⟨?_, ?_, ?_⟩
    · rw [ascii_toString]
      simp [Nat.toDigits_ne_nil]
    · exact List.takeWhile_eq_self_iff.2 fun b hb => isDigit_of_mem_toString hb
    · exact List.dropWhile_eq_nil_iff.2 fun b hb => isDigit_of_mem_toString hb
  have hlead : ¬ ((ascii (toString n)).head? = some 48 ∧ (ascii (toString n)).length ≠ 1) := by
    rintro ⟨hhead, hlen⟩
    rw [ascii_toString, List.head?_map, Option.map_eq_some_iff] at hhead
    obtain ⟨c, hc, hbyte⟩ := hhead
    have hdigit := Nat.isDigit_of_mem_toDigits (by decide) le_rfl (List.mem_of_head? hc)
    have hcode : c.toNat = 48 := by
      rw [← (toNat_of_isDigit hdigit).1, hbyte]
      rfl
    obtain rfl : c = '0' := Char.toNat_inj.1 hcode
    obtain rfl := eq_zero_of_head_toDigits hc
    exact hlen rfl
  rw [wholePart, hdigits]
  exact if_neg hlead

theorem isNumber_toString (n : Nat) : IsNumber (ascii (toString n)) := by
  have hsign : sign (ascii (toString n)) = ([], ascii (toString n)) := by
    unfold sign
    split
    · rename_i rest heq
      have hmem : 45 ∈ ascii (toString n) := heq ▸ List.mem_cons_self
      exact absurd (isDigit_of_mem_toString hmem) (by decide)
    · rfl
  refine numberText_eq_some.2 ⟨ascii (toString n), [], [], [], [], ?_, rfl, rfl, ?_⟩
  · rw [hsign, wholePart_toString]
  · rw [hsign, List.nil_append, List.append_nil, List.append_nil]

/-- The digits of a number are read as the number. -/
theorem word?_toString {n : Nat} (h : n < capacity 8) :
    word? (number (ascii (toString n))) = some n := by
  have hall : (ascii (toString n)).all (fun b => 48 ≤ b && b ≤ 57) = true :=
    List.all_eq_true.2 fun b hb => isDigit_of_mem_toString hb
  have hvalue : (ascii (toString n)).foldl (fun n b => n * 10 + (b.toNat - 48)) 0 = n := by
    rw [ascii_toString, List.foldl_map]
    calc (Nat.toDigits 10 n).foldl (fun m c => m * 10 + ((UInt8.ofNat c.toNat).toNat - 48)) 0
        = Nat.ofDigitChars 10 (Nat.toDigits 10 n) 0 := by
          refine List.foldl_ext _ _ _ fun m c hc => ?_
          have hdigit := Nat.isDigit_of_mem_toDigits (by decide) le_rfl hc
          rw [(toNat_of_isDigit hdigit).1, Nat.mul_comm]
          rfl
      _ = n := Nat.ofDigitChars_ten_toDigits
  rw [word?, if_pos hall, hvalue]
  exact if_pos h

end VaultAgent.Json
