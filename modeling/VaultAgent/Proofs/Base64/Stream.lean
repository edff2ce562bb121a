import VaultAgent.Base64.Stream
import VaultAgent.Proofs.Base64
import Mathlib.Data.List.TakeWhile

/-!
# Reading back what base64 writes, piece by piece

A stream over written base64 hands out the bytes that were written (`take_of_carries`) and knows how
many there are (`size_of_carries`). It stands between two groups, with some bytes of the last one that
it decoded still waiting, so what is left is these bytes and those of the groups to come (`Carries`).
-/

namespace VaultAgent.Base64.Stream

open VaultAgent.Action

variable {s : Stream} {bs bytes more rest : List UInt8} {n : Nat} {isLast : Bool} {a b c d : UInt8}

/-- The bytes that are left to be handed out. -/
def Carries (s : Stream) (bytes : List UInt8) : Prop :=
  ∃ tail, s.rest = encode tail ∧ bytes = s.waiting ++ tail

/-! ## Groups -/

theorem pad_not_mem_encode_three (a b c : UInt8) : pad ∉ encode [a, b, c] := by
  intro hpad
  rw [encode_three, encode, List.append_nil] at hpad
  obtain ⟨v, hv, he⟩ := List.mem_map.1 hpad
  exact symbol_ne_pad (valuesOfThree_lt a b c v hv) he

theorem group_three (isLast : Bool) (a b c : UInt8) :
    group isLast (encode [a, b, c]) = .ok [a, b, c] := by
  rw [group, if_neg fun h => pad_not_mem_encode_three a b c h.1, decode_encode]

theorem group_last (bs : List UInt8) : group true (encode bs) = .ok bs := by
  rw [group, if_neg (by simp), decode_encode]

theorem pull_of_group (h : group rest.isEmpty [a, b, c, d] = .ok bytes) (hn : 0 < n)
    (hle : n ≤ bytes.length) :
    pull n (a :: b :: c :: d :: rest) = .ok (bytes.take n, bytes.drop n, rest) := by
  rw [pull, if_neg (by omega), h]
  exact if_pos hle

theorem pull_past_group {text waiting : List UInt8}
    (h : group rest.isEmpty [a, b, c, d] = .ok bytes) (hlt : bytes.length < n)
    (hrest : pull (n - bytes.length) rest = .ok (more, waiting, text)) :
    pull n (a :: b :: c :: d :: rest) = .ok (bytes ++ more, waiting, text) := by
  have hnot : ¬ n ≤ bytes.length := Nat.not_le.2 hlt
  rw [pull, if_neg (by omega), h]
  refine except_bind_eq_ok.2 ⟨bytes, rfl, ?_⟩
  rw [if_neg hnot]
  exact except_bind_eq_ok.2 ⟨_, hrest, rfl⟩

theorem pull_encode (hn : 0 < n) (h : n ≤ bs.length) : ∃ waiting tail,
    pull n (encode bs) = .ok (bs.take n, waiting, encode tail) ∧ bs.drop n = waiting ++ tail := by
  induction bs using encode.induct generalizing n with
  | case1 =>
    rw [List.length_nil] at h
    omega
  | case2 a =>
    have hgroup : group ([] : List UInt8).isEmpty (encode [a]) = .ok [a] := group_last [a]
    exact ⟨[a].drop n, [], pull_of_group hgroup hn h, (List.append_nil _).symm⟩
  | case3 a b =>
    have hgroup : group ([] : List UInt8).isEmpty (encode [a, b]) = .ok [a, b] := group_last [a, b]
    exact ⟨[a, b].drop n, [], pull_of_group hgroup hn h, (List.append_nil _).symm⟩
  | case4 a b c rest ih =>
    have hgroup := group_three (encode rest).isEmpty a b c
    have hcons : a :: b :: c :: rest = [a, b, c] ++ rest := rfl
    rw [hcons] at h ⊢
    rw [List.length_append] at h
    rcases Nat.lt_or_ge [a, b, c].length n with hlt | hle
    · obtain ⟨waiting, tail, hp, hd⟩ := ih (n := n - [a, b, c].length) (by omega) (by omega)
      refine ⟨waiting, tail, ?_, ?_⟩
      · rw [List.take_append, List.take_of_length_le (Nat.le_of_lt hlt)]
        exact pull_past_group hgroup hlt hp
      · rw [List.drop_append, List.drop_of_length_le (Nat.le_of_lt hlt)]
        exact hd
    · refine ⟨[a, b, c].drop n, rest, ?_, List.drop_append_of_le_length hle⟩
      rw [List.take_append_of_le_length hle]
      exact pull_of_group hgroup hn hle

/-! ## The whole stream -/

/-- The text ends with the group of the last bytes. -/
theorem drop_encode (h : bs ≠ []) : ∃ last, (encode bs).drop ((encode bs).length - 4) = encode last := by
  induction bs using encode.induct with
  | case1 => exact absurd rfl h
  | case2 a => exact ⟨[a], rfl⟩
  | case3 a b => exact ⟨[a, b], rfl⟩
  | case4 a b c rest ih =>
    by_cases hrest : rest = []
    · subst hrest
      exact ⟨[a, b, c], rfl⟩
    · obtain ⟨last, hlast⟩ := ih hrest
      have hfour : 4 ≤ (encode rest).length := by
        obtain ⟨vs, k, n, he, -, hfour, hthree⟩ := encode_eq_signs rest
        have hpos := List.length_pos_iff.2 hrest
        rw [he, List.length_append, List.length_map, List.length_replicate]
        omega
      have hlen : ((valuesOfThree a b c).map symbol).length = 4 := rfl
      refine ⟨last, ?_⟩
      rw [encode_three, List.length_append, hlen, List.drop_append, hlen, List.drop_of_length_le,
        List.nil_append, Nat.add_sub_cancel_left, ← hlast]
      · omega

theorem ofText_encode (h : bs ≠ []) : ∃ s, ofText (encode bs) = .ok s ∧ s.Carries bs := by
  obtain ⟨last, hlast⟩ := drop_encode h
  have hmod : ¬ (encode bs).length % 4 ≠ 0 := not_not.2 (length_encode_mod bs)
  refine ⟨⟨encode bs, []⟩, ?_, bs, rfl, rfl⟩
  rw [ofText]
  refine except_guard_eq_ok.2 ⟨encode_ne_nil h, except_guard_eq_ok.2 ⟨hmod, ?_⟩⟩
  rw [hlast, group_last]
  rfl

theorem take_of_carries (h : s.Carries (bytes ++ more)) :
    ∃ s', s.take bytes.length = .ok (bytes, s') ∧ s'.Carries more := by
  obtain ⟨rest, waiting⟩ := s
  obtain ⟨tail, rfl, hall⟩ := h
  rcases List.append_eq_append_iff.1 hall with ⟨left, rfl, rfl⟩ | ⟨front, rfl, rfl⟩
  · refine ⟨⟨encode tail, left⟩, ?_, tail, rfl, rfl⟩
    rw [take, if_pos (by simp), List.take_left, List.drop_left]
  · rcases Nat.eq_zero_or_pos front.length with hzero | hpos
    · obtain rfl := List.length_eq_zero_iff.1 hzero
      refine ⟨⟨encode more, []⟩, ?_, more, rfl, rfl⟩
      rw [take, if_pos (by simp)]
      simp
    · have hnot : ¬ (waiting ++ front).length ≤ waiting.length := by
        rw [List.length_append]
        omega
      have hfront : (waiting ++ front).length - waiting.length = front.length := by
        rw [List.length_append, Nat.add_sub_cancel_left]
      have hle : front.length ≤ (front ++ more).length := by simp
      obtain ⟨waiting', tail, hp, hd⟩ := pull_encode hpos hle
      rw [List.take_left] at hp
      rw [List.drop_left] at hd
      refine ⟨⟨encode tail, waiting'⟩, ?_, tail, rfl, hd⟩
      rw [take, if_neg hnot, hfront, hp]
      rfl

theorem size_of_carries (h : s.Carries bytes) : s.size = bytes.length := by
  obtain ⟨tail, hrest, rfl⟩ := h
  obtain ⟨vs, k, n, he, hvs, hfour, hthree⟩ := encode_eq_signs tail
  have hsigns : (vs.map symbol).reverse.takeWhile (· = pad) = [] := by
    refine List.takeWhile_eq_nil_iff.2 fun hpos hfirst => ?_
    have hmem := List.getElem_mem (l := (vs.map symbol).reverse) hpos
    obtain ⟨v, hv, hv'⟩ := List.mem_map.1 (List.mem_reverse.1 hmem)
    exact symbol_ne_pad (hvs v hv) (hv'.trans (of_decide_eq_true hfirst))
  have hpads : ((encode tail).reverse.takeWhile (· = pad)).length = k := by
    rw [he, List.reverse_append, List.reverse_replicate,
      List.takeWhile_append_of_pos (by simp), hsigns]
    simp
  have hlength : (encode tail).length = 4 * n := by
    rw [he, List.length_append, List.length_map, List.length_replicate, hfour]
  rw [size, hrest, hpads, hlength, List.length_append]
  omega

end VaultAgent.Base64.Stream
