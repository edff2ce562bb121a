import VaultAgent.Proofs.Disk.File
import Mathlib.Data.List.Induction

/-!
# What making directories does

However far it gets, it leaves what was there and adds directories (`Grows`). A path that led to a file
leads to it still. A path that led nowhere may lead to a file that was there before: `a/../b` does so
once `a` is made (`Uncovers`). No other path does that, if every file stands in a directory
(`dots_of_uncovers`).
-/

namespace VaultAgent.Disk

open VaultAgent.Action

variable {d d' d'' : Disk} {p : Path} {place : Place} {node : Node} {content : List UInt8}

/-- What was there is there, and nothing else but new directories. -/
structure Grows (d d' : Disk) : Prop where
  keeps : ∀ place node, d.node? place = some node → d'.node? place = some node
  adds : ∀ place node, d'.node? place = some node → node = .directory ∨ d.node? place = some node
  faults : d'.fault? = d.fault?

namespace Grows

theorem refl (d : Disk) : Grows d d := ⟨fun _ _ h => h, fun _ _ h => .inr h, rfl⟩

theorem put (h : Grows d d') (hn : d'.node? place = none) : Grows d (d'.put place .directory) := by
  refine ⟨?_, ?_, h.faults⟩
  · intro q node hq
    have hne : q ≠ place := by
      rintro rfl
      rw [h.keeps q node hq] at hn
      cases hn
    simpa [Disk.put, hne] using h.keeps q node hq
  · intro q node hq
    by_cases hqp : q = place
    · simp only [Disk.put, hqp, if_true, Option.some.injEq] at hq
      exact .inl hq.symm
    · exact h.adds q node (by simpa [Disk.put, hqp] using hq)

theorem keepsDirectories (h : Grows d d') : KeepsDirectories d d' := fun place => h.keeps place _

/-- What leads somewhere leads there still. -/
theorem find_eq (h : Grows d d') (hf : d.find p = .ok (place, node)) :
    d'.find p = .ok (place, node) := by
  obtain ⟨g, hg, hp, hn⟩ := goal_of_find hf
  rw [← hf]
  refine find_congr hg (goal_mono h.keepsDirectories hg) fun q hq => ?_
  cases hp.symm.trans hq
  exact (h.keeps _ _ hn).trans hn.symm

theorem contentAt?_eq_some (h : Grows d d') (hc : d.contentAt? p = some content) :
    d'.contentAt? p = some content := by
  obtain ⟨place, mode, hf⟩ := Disk.contentAt?_eq_some.1 hc
  exact Disk.contentAt?_eq_some.2 ⟨place, mode, h.find_eq hf⟩

end Grows

/-! ## The steps -/

theorem makeDirectory_eq_ok {u : Unit} (h : makeDirectory p d = .ok u d') :
    ∃ place, d.node? place = none ∧ d' = d.put place .directory := by
  obtain ⟨g, -, h⟩ := ask_bind_eq_ok.1 h
  split at h
  · cases h
  · obtain ⟨place, -, h⟩ := ask_bind_eq_ok.1 h
    rw [get_bind] at h
    obtain ⟨hn, h⟩ := guard_eq_ok.1 h
    obtain ⟨-, h⟩ := checkFault_bind_eq_ok.1 h
    cases h
    exact ⟨place, by simpa using hn, rfl⟩

theorem failsClean_makeDirectory (p : Path) : (makeDirectory p).FailsClean := by
  refine .bind (asks_ask _) fun g => ?_
  split
  · exact (Asks.throw _).failsClean
  · refine .bind (asks_ask _) fun place => .bind .get fun d => ?_
    split
    · exact (Asks.throw _).failsClean
    · exact .bind (asks_checkFault _) fun _ => .modify _

section

variable {P : Disk → Prop} (hP : ∀ d place, P d → d.node? place = none → P (d.put place .directory))

include hP

theorem preserves_makeDirectory (p : Path) : (makeDirectory p).Preserves P := by
  intro d hd
  cases h : makeDirectory p d with
  | ok u d' =>
    obtain ⟨place, hn, rfl⟩ := makeDirectory_eq_ok h
    rw [after_of_ok h]
    exact hP d place hd hn
  | error e d' =>
    rw [after_of_error h, failsClean_makeDirectory p d e d' h]
    exact hd

theorem preserves_ensureDirectory (p : Path) : (ensureDirectory p).Preserves P := by
  refine .bind (preserves_makeDirectory hP p).attempt fun r => ?_
  split
  · exact (Asks.pure _).preserves _
  · refine .bind (Asks.get.preserves _) fun d => ?_
    split
    · exact (Asks.throw _).preserves _
    · exact (Asks.pure _).preserves _

theorem preserves_ensureFirst (ps missing : List Path) : (ensureFirst ps missing).Preserves P := by
  induction ps generalizing missing with
  | nil => exact (Asks.pure _).preserves _
  | cons p ps ih =>
    refine .bind (preserves_ensureDirectory hP p).attempt fun r => ?_
    split
    · exact (Asks.pure _).preserves _
    · exact ih _
    · exact (Asks.throw _).preserves _

theorem preserves_forM_ensureDirectory (ps : List Path) : (ps.forM ensureDirectory).Preserves P := by
  induction ps with
  | nil => exact (Asks.pure _).preserves _
  | cons p ps ih => exact .bind (preserves_ensureDirectory hP p) fun _ => ih

/-- What new directories do not break holds after directories have been made. -/
theorem preserves_makeParents (p : Path) : (makeParents p).Preserves P :=
  .bind (preserves_ensureFirst hP _ _) (preserves_forM_ensureDirectory hP)

end

theorem grows_makeParents (d : Disk) (p : Path) : Grows d ((makeParents p).after d) :=
  preserves_makeParents (fun _ _ h hn => h.put hn) p d (.refl d)

theorem sockets_makeParents (d : Disk) (p : Path) : ((makeParents p).after d).listening = d.listening ∧
    ((makeParents p).after d).nextSocket = d.nextSocket := by
  let P : Disk → Prop := fun d' => d'.listening = d.listening ∧ d'.nextSocket = d.nextSocket
  have hP (d' : Disk) (place : Place) (h : P d') (hn : d'.node? place = none) :
      P (d'.put place .directory) := h
  exact preserves_makeParents hP p d ⟨rfl, rfl⟩

/-! ## Files that come to light -/

/-- With its parents made, the path leads to another content than before. -/
def Uncovers (d : Disk) (p : Path) : Prop :=
  ((makeParents p).after d).contentAt? p ≠ d.contentAt? p

/-- Everything stands in a directory. -/
def IsTree (d : Disk) : Prop :=
  ∀ name place, d.node? (name :: place) ≠ none → d.node? place = some .directory

theorem IsTree.empty : IsTree Disk.empty := by
  intro name place h
  have hplace : place.all (· = "..") ∨ place = ["/"] ∨ place = ["tmp", "/"] := by
    simp only [Disk.empty, ne_eq, ite_eq_right_iff, reduceCtorEq, imp_false, not_not] at h
    rcases h with h | h | h
    · rw [List.all_cons, Bool.and_eq_true] at h
      exact .inl h.2
    · exact .inl (by simp [(List.cons.inj h).2])
    · exact .inr (.inl (List.cons.inj h).2)
  simp only [Disk.empty, hplace, if_true]

theorem IsTree.put {name : String} (h : d.IsTree) (hd : d.node? place = some .directory)
    (hn : d.node? (name :: place) ≠ some .directory) : (d.put (name :: place) node).IsTree := by
  intro name' place' hsome
  have hne : place' ≠ name :: place := by
    rintro rfl
    have hlonger : name' :: name :: place ≠ name :: place := List.cons_ne_self _ _
    simp only [Disk.put, hlonger, if_false] at hsome
    exact hn (h _ _ hsome)
  simp only [Disk.put, hne, if_false]
  by_cases heq : name' :: place' = name :: place
  · rwa [(List.cons.inj heq).2]
  · exact h name' place' (by simpa [Disk.put, heq] using hsome)

/-- Only a path that led to no file uncovers one. -/
theorem none_of_uncovers (h : d.Uncovers p) : d.contentAt? p = none := by
  refine Option.eq_none_iff_forall_ne_some.2 fun content hc => h ?_
  rw [(grows_makeParents d p).contentAt?_eq_some hc, hc]

/-- Going down to what was there before leads only by what was there before. -/
theorem foldlM_step_of_grows (hg : Grows d d') (ht : d.IsTree) {pieces : List String} {start : Place}
    (hdots : ".." ∉ pieces) (hf : pieces.foldlM d'.step start = .ok place)
    (hn : d.node? place ≠ none) : pieces.foldlM d.step start = .ok place := by
  induction pieces using List.reverseRecOn generalizing place with
  | nil => exact hf
  | append_singleton pieces piece ih =>
    obtain ⟨parent, hparent, hf⟩ := foldlM_step_concat.1 hf
    have hpiece : piece ≠ ".." := fun heq => hdots (by simp [heq])
    -- The directory that the last piece leads from was there, since it holds what was there.
    have hparent' : d.node? parent = some .directory := by
      obtain ⟨hd, ⟨-, rfl⟩ | ⟨hup, -⟩ | ⟨-, -, rfl⟩⟩ := step_eq_ok hf
      · obtain ⟨node, hnode⟩ := Option.ne_none_iff_exists'.1 hn
        rw [hg.keeps _ _ hnode] at hd
        rw [hnode, hd]
      · exact absurd hup hpiece
      · exact ht _ _ hn
    refine foldlM_step_concat.2 ⟨parent, ih (fun hm => hdots (List.mem_append_left _ hm)) hparent
      (by simp [hparent']), ?_⟩
    rw [← hf, step_of_directory hparent', step_of_directory (hg.keeps _ _ hparent')]

/-- A path that does not lead up leads to no file that it did not lead to before. -/
theorem find_of_grows (hg : Grows d d') (ht : d.IsTree) (hdots : ".." ∉ p.pieces)
    (hf : d'.find p = .ok (place, node)) (hnode : node ≠ .directory) :
    d.find p = .ok (place, node) := by
  obtain ⟨g, hgoal, hplace, hn'⟩ := goal_of_find hf
  have hn : d.node? place = some node := (hg.adds _ _ hn').resolve_left hnode
  obtain ⟨h1, h2, h3, hfold⟩ := locate_eq_ok.1 (except_bind_eq_ok.2 ⟨g, hgoal, hplace⟩)
  have hlocate : d.locate p = .ok place :=
    locate_eq_ok.2 ⟨h1, h2, h3, foldlM_step_of_grows hg ht hdots hfold (by simp [hn])⟩
  obtain ⟨g', hgoal', -⟩ := except_bind_eq_ok.1 hlocate
  obtain rfl : g = g' := Except.ok.inj (hgoal.symm.trans (goal_mono hg.keepsDirectories hgoal'))
  rw [← hf]
  refine find_congr hgoal hgoal' fun q hq => ?_
  cases hplace.symm.trans hq
  exact hn.trans hn'.symm

/-- A path uncovers a file only if it leads up again. -/
theorem dots_of_uncovers (ht : d.IsTree) (h : d.Uncovers p) : ".." ∈ p.pieces := by
  by_contra hdots
  have hnone := none_of_uncovers h
  rw [Uncovers, hnone] at h
  obtain ⟨content, hc⟩ := Option.ne_none_iff_exists'.1 h
  obtain ⟨place, mode, hf⟩ := contentAt?_eq_some.1 hc
  -- So the path led to the file before its parents were made.
  have hbefore := find_of_grows (grows_makeParents d p) ht hdots hf nofun
  rw [contentAt?_eq_some.2 ⟨place, mode, hbefore⟩] at hnone
  cases hnone

end VaultAgent.Disk
