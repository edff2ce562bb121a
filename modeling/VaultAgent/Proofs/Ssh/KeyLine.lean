import VaultAgent.Proofs.Ssh.RoundTrip
import VaultAgent.Ssh.KeyLine

/-!
# Key lines, read back

The line of a key of a registered algorithm is read as the key, if the decoder of public keys reads the
written key (`ofLineBytes_line`). Neither part of a line holds a blank, so the blank between them is where the first
ends, and there is nothing to trim.
-/

namespace VaultAgent.Ssh

open VaultAgent.Action

/-! ## Parts -/

namespace KeyLine

variable {cs rest : List Char} {c : Char}

theorem part_of_blank (h : ∀ c ∈ cs, isPartChar c = true) :
    part (cs ++ ' ' :: rest) = .ok (cs, rest) := by
  have hblank : isPartChar ' ' = false := by decide
  have htake : (cs ++ ' ' :: rest).takeWhile isPartChar = cs := by
    rw [List.takeWhile_append_of_pos h, List.takeWhile_cons_of_neg (by simp [hblank]),
      List.append_nil]
  have hdrop : (cs ++ ' ' :: rest).dropWhile isPartChar = ' ' :: rest := by
    rw [List.dropWhile_append_of_pos h, List.dropWhile_cons_of_neg (by simp [hblank])]
  simp only [part, hdrop, htake]

theorem part_of_end (h : ∀ c ∈ cs, isPartChar c = true) : part cs = .ok (cs, []) := by
  rw [part, List.dropWhile_eq_nil_iff.2 h, List.takeWhile_eq_self_iff.2 h]

theorem toNat_of_isAlphanum (h : c.isAlphanum = true) : 48 ≤ c.toNat ∧ c.toNat ≤ 122 := by
  -- the three classes, as they are defined
  have hclass : ((decide (65 ≤ c.val ∧ c.val ≤ 90) ||
      (decide (97 ≤ c.val) && decide (c.val ≤ 122))) ||
      (decide (48 ≤ c.val) && decide (c.val ≤ 57))) = true := h
  simp only [Bool.or_eq_true, Bool.and_eq_true, decide_eq_true_eq, UInt32.le_iff_toNat_le] at hclass
  change 48 ≤ c.val.toNat ∧ c.val.toNat ≤ 122
  rcases hclass with (⟨hge, hle⟩ | ⟨hge, hle⟩) | ⟨hge, hle⟩
  · exact ⟨le_trans (by decide) hge, le_trans hle (by decide)⟩
  · exact ⟨le_trans (by decide) hge, hle⟩
  · exact ⟨hge, le_trans hle (by decide)⟩

theorem not_isBlank_of_isPartChar (h : isPartChar c = true) : Blank.isBlank c = false := by
  have hrange : 43 ≤ c.toNat ∧ c.toNat ≤ 122 := by
    simp only [isPartChar, Bool.or_eq_true, decide_eq_true_eq] at h
    rcases h with (((((h | rfl) | rfl) | rfl) | rfl) | rfl) | rfl
    · obtain ⟨hge, hle⟩ := toNat_of_isAlphanum h
      exact ⟨le_trans (by decide) hge, hle⟩
    all_goals decide
  simp only [Blank.isBlank, Bool.or_eq_false_iff, Bool.and_eq_false_iff, decide_eq_false_iff_not,
    beq_eq_false_iff_ne]
  omega

/-- A text that begins and ends with such characters has no blanks at its ends. -/
theorem trim_eq_self {first last : Char} (hfirst : isPartChar first = true)
    (hlast : isPartChar last = true) (hf : cs.head? = some first) (hl : cs.getLast? = some last) :
    Blank.trim cs = cs := by
  have hkeep {cs : List Char} {c : Char} (hc : isPartChar c = true) (h : cs.head? = some c) :
      cs.dropWhile Blank.isBlank = cs := by
    obtain ⟨rest, rfl⟩ := List.head?_eq_some_iff.1 h
    exact List.dropWhile_cons_of_neg (by simp [not_isBlank_of_isPartChar hc])
  rw [Blank.trim, Blank.trimStart, hkeep hfirst hf, Blank.trimEnd,
    hkeep hlast (List.head?_reverse.trans hl), List.reverse_reverse]

theorem isPartChar_of_mem_text {bs : List UInt8} (h : c ∈ (Base64.text bs).toList) :
    isPartChar c = true := by
  rw [Base64.text, Utf8.ascii, String.toList_ofList] at h
  obtain ⟨b, hb, rfl⟩ := List.mem_map.1 h
  rcases Base64.mem_encode hb with rfl | ⟨v, hv, rfl⟩
  · decide
  · have hall : ∀ v : Fin 64, isPartChar (Char.ofNat (Base64.symbol v.val).toNat) = true := by decide
    exact hall ⟨v, hv⟩

theorem isPartChar_of_mem_name {a : Algorithm} (h : a ∈ Algorithm.ofKeys) :
    a.name.toList ≠ [] ∧ ∀ c ∈ a.name.toList, isPartChar c = true := by
  have hall : Algorithm.ofKeys.all (fun a => !a.name.toList.isEmpty && a.name.toList.all isPartChar) =
      true := by decide +kernel
  simpa using List.all_eq_true.1 hall a h

end KeyLine

namespace PublicKey

variable {k : PublicKey}

theorem toBytes_ne_nil (k : PublicKey) : k.toBytes ≠ [] := by
  intro hnil
  have hlen := congrArg List.length hnil
  simp only [toBytes, textBlock, block, word, List.length_append, beBytes_length,
    List.length_nil] at hlen
  omega

theorem toList_line (k : PublicKey) :
    k.line.toList = k.algorithm.name.toList ++ ' ' :: (Base64.text k.toBytes).toList := by
  have hblank : " ".toList = [' '] := by simp
  rw [line, String.toList_append, String.toList_append, List.append_assoc, hblank]
  rfl

theorem toList_text_ne_nil (k : PublicKey) : (Base64.text k.toBytes).toList ≠ [] := by
  rw [Base64.text, Utf8.ascii, String.toList_ofList, Ne, List.map_eq_nil_iff]
  exact Base64.encode_ne_nil k.toBytes_ne_nil

/-- The key in a line, which has to be of the algorithm that the line names. -/
theorem run_named {source : Source} {name : String} (h : Reads Decoder.publicKey k.toBytes k)
    (hs : source.Carries k.toBytes) (hname : k.algorithm.name = name) :
    Decoder.run (do
      let key ← Decoder.publicKey
      if key.algorithm.name ≠ name then throw .unknownAlgorithm
      Decoder.finish
      return key) source = .ok k := by
  obtain ⟨source', hrun, hdone⟩ := @h source [] [] (by rwa [List.append_nil]) nofun
  rw [Decoder.run, StateT.run', Decoder.bind_of_ok hrun, if_neg (not_not.2 hname)]
  exact congrArg (Prod.fst <$> ·) (Decoder.bind_of_ok (Decoder.finish_of_carries hdone))

theorem ofLine_line (h : Reads Decoder.publicKey k.toBytes k) (ha : k.algorithm ∈ Algorithm.ofKeys) :
    ofLine k.line.toList = .ok k := by
  obtain ⟨hne, hname⟩ := KeyLine.isPartChar_of_mem_name ha
  have htext : ∀ c ∈ (Base64.text k.toBytes).toList, KeyLine.isPartChar c = true :=
    fun c => KeyLine.isPartChar_of_mem_text
  have hbytes : Utf8.encode (Base64.text k.toBytes).toList = Base64.encode k.toBytes :=
    Utf8.bytes_ascii fun b => Base64.lt_of_mem_encode
  have hparts : ¬ (k.algorithm.name.toList = [] ∨ (Base64.text k.toBytes).toList = []) :=
    not_or.2 ⟨hne, k.toList_text_ne_nil⟩
  obtain ⟨stream, hstream, hcarries⟩ := Base64.Stream.ofText_encode k.toBytes_ne_nil
  rw [toList_line]
  refine except_bind_eq_ok.2 ⟨_, KeyLine.part_of_blank hname, ?_⟩
  refine except_bind_eq_ok.2 ⟨_, KeyLine.part_of_end htext, ?_⟩
  refine except_guard_eq_ok.2 ⟨hparts, ?_⟩
  rw [hbytes, hstream]
  exact run_named h hcarries (String.ofList_toList ..).symm

/-- What begins and ends as a key line does needs no trimming. -/
theorem trim_line (ha : k.algorithm ∈ Algorithm.ofKeys) :
    Blank.trim k.line.toList = k.line.toList := by
  obtain ⟨hne, hname⟩ := KeyLine.isPartChar_of_mem_name ha
  have hf := List.head?_eq_some_head hne
  have hl := List.getLast?_eq_some_getLast k.toList_text_ne_nil
  have hlast := KeyLine.isPartChar_of_mem_text (List.mem_of_getLast? hl)
  refine KeyLine.trim_eq_self (hname _ (List.mem_of_head? hf)) hlast ?_ ?_
  · rw [toList_line, List.head?_append, hf, Option.some_or]
  · rw [toList_line, List.getLast?_append, List.getLast?_cons, hl, Option.getD_some, Option.some_or]

theorem ofLineBytes_line (h : Reads Decoder.publicKey k.toBytes k)
    (ha : k.algorithm ∈ Algorithm.ofKeys) : ofLineBytes (Utf8.bytes k.line) = .ok k := by
  rw [ofLineBytes, Utf8.bytes, Utf8.decode_encode]
  simp only [trim_line ha, ofLine_line h ha]

end PublicKey

end VaultAgent.Ssh
