import VaultAgent.Proofs.Action
import VaultAgent.Ssh.PublicKey

/-!
# The forms of a curve point

A point is written behind a 2 or a 3 with one coordinate, or behind a 4 with both. Its curve is told from
nothing but this first byte and the length (`curveOfPoint_eq_ok`).
-/

namespace VaultAgent.Ssh

open VaultAgent.Action

variable {point : List UInt8} {curve other : Curve} {size length : Nat} {tag : UInt8}

/-- The bytes are written like a point of the curve. -/
def HasForm (curve : Curve) (point : List UInt8) : Prop :=
  ∃ tag rest, point = tag :: rest ∧ ((tag = 2 ∨ tag = 3) ∧ rest.length = curve.fieldSize ∨
    tag = 4 ∧ rest.length = 2 * curve.fieldSize)

theorem HasForm.length_eq (h : HasForm curve point) :
    point.length = curve.fieldSize + 1 ∨ point.length = 2 * curve.fieldSize + 1 := by
  obtain ⟨tag, rest, rfl, ⟨-, hlen⟩ | ⟨-, hlen⟩⟩ := h
  · exact .inl (congrArg (· + 1) hlen)
  · exact .inr (congrArg (· + 1) hlen)

theorem pointLength?_eq_some (ht : ¬ (tag = 0 ∨ tag = 5)) : pointLength? size tag = some length ↔
    (tag = 2 ∨ tag = 3) ∧ length = size + 1 ∨ tag = 4 ∧ length = 2 * size + 1 := by
  obtain ⟨h0, h5⟩ := not_or.1 ht
  rw [pointLength?, if_neg h0]
  by_cases h23 : tag = 2 ∨ tag = 3
  · have hne : tag ≠ 4 := by rintro rfl; exact absurd h23 (by decide)
    simp [h23, hne, ← or_assoc, eq_comm]
  · have h235 : ¬ (tag = 2 ∨ tag = 3 ∨ tag = 5) := by tauto
    rw [if_neg h235]
    by_cases h4 : tag = 4 <;> simp [h23, h4, eq_comm]

theorem find?_fieldSize (curve : Curve) :
    Curve.all.find? (·.fieldSize = curve.fieldSize) = some curve := by
  cases curve <;> decide

/-- The form of a point tells its curve. -/
theorem curveOfPoint_eq_ok : curveOfPoint point = .ok curve ↔ HasForm curve point := by
  cases point with
  | nil =>
    refine ⟨nofun, ?_⟩
    rintro ⟨tag, rest, h, -⟩
    cases h
  | cons tag rest =>
    constructor
    · intro h
      obtain ⟨-, h⟩ := except_guard_eq_ok.1 h
      obtain ⟨htag, h⟩ := except_guard_eq_ok.1 h
      dsimp only at h
      split at h
      · cases h
      · rename_i found hfind
        have hfound := List.find?_some hfind
        have hsize : found.fieldSize = if tag = 4 then rest.length / 2 else rest.length :=
          of_decide_eq_true hfound
        rw [← hsize] at h
        split at h
        · rename_i hpoint
          cases h
          refine ⟨tag, rest, rfl, ?_⟩
          have hlen := (pointLength?_eq_some htag).1 (of_decide_eq_true hpoint)
          exact hlen.imp (And.imp_right Nat.succ.inj) (And.imp_right Nat.succ.inj)
        · cases h
    · rintro ⟨tag, rest, h, hform⟩
      obtain ⟨rfl, rfl⟩ := List.cons.inj h
      have htag : ¬ (tag = 0 ∨ tag = 5) := by
        rcases hform with ⟨rfl | rfl, -⟩ | ⟨rfl, -⟩ <;> decide
      have hlen : pointLength? curve.fieldSize tag = some (rest.length + 1) :=
        (pointLength?_eq_some htag).2
          (hform.imp (And.imp_right (congrArg (· + 1))) (And.imp_right (congrArg (· + 1))))
      have hsize : (if tag = 4 then rest.length / 2 else rest.length) = curve.fieldSize := by
        rcases hform with ⟨rfl | rfl, hrest⟩ | ⟨rfl, hrest⟩
        · exact hrest
        · exact hrest
        · simp [hrest]
      have hknown : pointLength? 0 tag ≠ none := by
        rcases hform with ⟨rfl | rfl, -⟩ | ⟨rfl, -⟩ <;> decide
      refine except_guard_eq_ok.2 ⟨hknown, except_guard_eq_ok.2 ⟨htag, ?_⟩⟩
      dsimp only
      rw [hsize, find?_fieldSize]
      exact if_pos (decide_eq_true hlen)

theorem HasForm.unique (h : HasForm curve point) (h' : HasForm other point) : curve = other :=
  Except.ok.inj ((curveOfPoint_eq_ok.2 h).symm.trans (curveOfPoint_eq_ok.2 h'))

end VaultAgent.Ssh
