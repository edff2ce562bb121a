import VaultAgent.Path
import Mathlib.Tactic.Common

/-!
# What is written behind a path

A suffix without a slash belongs to the last piece of the path, also if that was empty: all pieces in
front of it stay, and one that ends in the suffix follows (`pieces_extend`).
-/

namespace VaultAgent.Path

variable {cs ext : List Char} {suffix : String}

theorem split_of_not_mem (h : '/' ∉ cs) : split cs = [cs] := by
  induction cs with
  | nil => rfl
  | cons c cs ih =>
    have hc : c ≠ '/' := fun heq => h (heq ▸ List.mem_cons_self)
    have hcs : '/' ∉ cs := fun hm => h (List.mem_cons_of_mem _ hm)
    simp [split, hc, ih hcs]

theorem split_append (h : '/' ∉ ext) (cs : List Char) :
    ∃ lead last, split cs = lead ++ [last] ∧ split (cs ++ ext) = lead ++ [last ++ ext] := by
  induction cs with
  | nil => exact ⟨[], [], rfl, split_of_not_mem h⟩
  | cons c cs ih =>
    obtain ⟨lead, last, hl, hle⟩ := ih
    by_cases hc : c = '/'
    · exact ⟨[] :: lead, last, by simp [split, hc, hl], by simp [split, hc, hle]⟩
    · cases lead with
      | nil => exact ⟨[], c :: last, by simp [split, hc, hl], by simp [split, hc, hle]⟩
      | cons piece lead =>
        exact ⟨(c :: piece) :: lead, last, by simp [split, hc, hl], by simp [split, hc, hle]⟩

theorem pieces_extend (h : '/' ∉ suffix.toList) (hne : suffix ≠ "") (p : Path) :
    ∃ lead last, p.pieces = lead ++ (if last = "" then [] else [last]) ∧
      (p.extend suffix).pieces = lead ++ [last ++ suffix] := by
  obtain ⟨lead, last, hl, hle⟩ := split_append h p.text.toList
  refine ⟨(lead.filter (· ≠ [])).map String.ofList, String.ofList last, ?_, ?_⟩
  · rw [pieces, hl]
    by_cases hlast : last = [] <;> simp [hlast]
  · have hext : last ++ suffix.toList ≠ [] := by simp [hne]
    rw [pieces, extend, String.toList_append, hle]
    simp [hext, String.ofList_append]

/-- A path leads up only where it did before something was written behind it. -/
theorem dots_of_extend (h : '/' ∉ suffix.toList) (hlen : 2 < suffix.length) {p : Path}
    (hp : ".." ∈ (p.extend suffix).pieces) : ".." ∈ p.pieces := by
  obtain ⟨lead, last, hl, hle⟩ := pieces_extend h (by rintro rfl; simp at hlen) p
  rw [hle, List.mem_append, List.mem_singleton] at hp
  rcases hp with hp | heq
  · rw [hl]
    exact List.mem_append_left _ hp
  · have hlength := congrArg String.length heq
    rw [String.length_append] at hlength
    have htwo : "..".length = 2 := rfl
    omega

theorem isAbsolute_extend (h : '/' ∉ suffix.toList) (p : Path) :
    (p.extend suffix).isAbsolute = p.isAbsolute := by
  rw [isAbsolute, isAbsolute, extend, String.toList_append]
  cases hp : p.text.toList with
  | nil =>
    have hs : suffix.toList.head? ≠ some '/' := fun hs => h (List.mem_of_head? hs)
    simp [hs]
  | cons c cs => rfl

end VaultAgent.Path
