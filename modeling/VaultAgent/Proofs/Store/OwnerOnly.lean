import VaultAgent.Proofs.Store.Failure

/-!
# Who may read the file

A file that is written anew may be read by its owner only. But it is written beside the old one and moved
over it, and a file that was left there, by a crash or by another program, is taken with the mode that
it has. So the file ends with the mode of what was left beside it, and is its owner's only if that was
(`ownerOnly_iff_of_change`). The mode of the file that is replaced plays no part.
-/

namespace VaultAgent

namespace Disk

variable {d d' : Disk} {p : Path} {place : Place} {mode : Nat} {content : List UInt8}

/-- The mode of the file at a path, if there is a file. -/
def modeAt? (d : Disk) (p : Path) : Option Nat :=
  match d.find p with
  | .ok (_, .file mode _) => some mode
  | _ => none

theorem modeAt?_eq_some :
    d.modeAt? p = some mode ↔ ∃ place content, d.find p = .ok (place, .file mode content) := by
  unfold modeAt?
  split
  · rename_i place mode' content hf
    simp [hf]
  · rename_i h
    simp only [reduceCtorEq, false_iff]
    rintro ⟨place, content, hf⟩
    exact h place mode content hf

theorem EndsAt.modeAt?_eq_none (h : d.EndsAt p place) (hn : d.node? place = none) :
    d.modeAt? p = none := by
  refine Option.eq_none_iff_forall_ne_some.2 fun mode hm => ?_
  obtain ⟨q, content, hf⟩ := modeAt?_eq_some.1 hm
  obtain ⟨g, hg, hp, hq⟩ := goal_of_find hf
  obtain rfl : place = q :=
    Except.ok.inj (h.locate.symm.trans (Action.except_bind_eq_ok.2 ⟨g, hg, hp⟩))
  rw [hn] at hq
  cases hq

end Disk

namespace Store

open VaultAgent.Action

variable {s s' : Store} {d d' : Disk} {path : Path} {content : List UInt8} {c : Change}

/-- The mode of a file that is beside the path once its parents are made. -/
def leftBeside (path : Path) (d : Disk) : Option Nat :=
  ((Disk.makeParents path).after d).modeAt? (path.extend ".tmp")

theorem modeAt?_of_replaceFile {u : Unit} (h : replaceFile path content d = .ok u d') :
    d'.modeAt? path = some ((leftBeside path d).getD fileMode) := by
  obtain ⟨d₁, s, t, mode, hp, hs, hmode, ht, rfl⟩ := replaceFile_eq_ok h
  have hleft : (leftBeside path d).getD fileMode = mode := by
    rw [leftBeside, after_of_ok hp]
    rcases hmode with ⟨hn, rfl⟩ | ⟨old, hn, -⟩
    · rw [hs.modeAt?_eq_none hn]
      rfl
    · rw [Disk.modeAt?_eq_some.2 ⟨s, old, hs.find hn nofun⟩]
      rfl
  rw [hleft]
  exact Disk.modeAt?_eq_some.2 ⟨t, content, ht.find (by simp) nofun⟩

/-- What was beside the path before is beside it then, and nothing else if the path does not lead up. -/
theorem leftBeside_of_modeAt? (path : Path) (d : Disk) :
    (∀ mode, d.modeAt? (path.extend ".tmp") = some mode → leftBeside path d = some mode) ∧
      (d.IsTree → ".." ∉ path.pieces → leftBeside path d = d.modeAt? (path.extend ".tmp")) := by
  have hgrows := Disk.grows_makeParents d path
  have hkeeps (mode : Nat) (hm : d.modeAt? (path.extend ".tmp") = some mode) :
      leftBeside path d = some mode := by
    obtain ⟨place, content, hf⟩ := Disk.modeAt?_eq_some.1 hm
    exact Disk.modeAt?_eq_some.2 ⟨place, content, hgrows.find_eq hf⟩
  refine ⟨hkeeps, fun ht hdots => Option.ext fun mode => ⟨fun hm => ?_, hkeeps mode⟩⟩
  obtain ⟨place, content, hf⟩ := Disk.modeAt?_eq_some.1 hm
  have hdots' : ".." ∉ (path.extend ".tmp").pieces :=
    fun hmem => hdots (Path.dots_of_extend (by decide) (by decide) hmem)
  exact Disk.modeAt?_eq_some.2 ⟨place, content, Disk.find_of_grows hgrows ht hdots' hf nofun⟩

/-- A change that is written leaves the new records at the path, in a file of the mode of what was left
beside it, if something was. So the file is its owner's only if, and only if, that was or there was
nothing. -/
theorem ownerOnly_iff_of_change (h : c.run (s, d) = .ok () (s', d')) :
    (∃ name, c = .remove name ∧ s.contains name = false ∧ s' = s ∧ d' = d) ∨
      s'.path = s.path ∧ Written s.path s'.records d' ∧
      d'.modeAt? s.path = some ((leftBeside s.path d).getD fileMode) ∧
      (d'.modeAt? s.path = some fileMode ↔ ∀ mode ∈ leftBeside s.path d, mode = fileMode) ∧
      (∀ mode, d.modeAt? (s.path.extend ".tmp") = some mode → leftBeside s.path d = some mode) ∧
      (d.IsTree → ".." ∉ s.path.pieces →
        leftBeside s.path d = d.modeAt? (s.path.extend ".tmp")) := by
  rcases c.run_eq_ok h with hnone | ⟨hpath, hw⟩
  · exact .inl hnone
  have hmode := modeAt?_of_replaceFile hw
  refine .inr ⟨hpath, find_of_replaceFile hw, hmode, ?_, leftBeside_of_modeAt? s.path d⟩
  rw [hmode]
  cases leftBeside s.path d with
  | none => simp
  | some mode => simp

/-- A disk with a file that anybody may write, and a file of some mode that was left beside it. -/
def leftDisk (mode : Nat) : Disk :=
  (Disk.empty.put ["agent_storage.json"] (.file 0o666 [])).put ["agent_storage.json.tmp"]
    (.file mode [0x7B])

/-- An insertion of a record that says nothing but its name. -/
def insertion : Change :=
  .insert ⟨⟨"k", "", "", "", []⟩, []⟩

theorem ownerOnly_of_own_leftover : ∃ s' d',
    insertion.run (⟨plainPath, .empty⟩, leftDisk 0o600) = .ok () (s', d') ∧
    Written plainPath s'.records d' ∧ d'.modeAt? plainPath = some fileMode := by
  obtain ⟨⟨s', d'⟩, hrun⟩ : ∃ w', insertion.run (⟨plainPath, .empty⟩, leftDisk 0o600) = .ok () w' :=
    ⟨_, outcome_eq_ok.1 (by decide +kernel)⟩
  have hleft : (leftDisk 0o600).modeAt? (plainPath.extend ".tmp") = some 0o600 := by decide +kernel
  rcases ownerOnly_iff_of_change hrun with ⟨name, hremove, -⟩ | ⟨-, hwritten, -, hiff, hkeeps, -⟩
  · cases hremove
  · refine ⟨s', d', hrun, hwritten, hiff.2 fun mode hmode => ?_⟩
    exact Option.some.inj (hmode.symm.trans (hkeeps _ hleft))

/-- A file that anybody may read was left beside the path. The new file may be read by anybody. -/
theorem leftover_opens_file : ∃ s' d',
    insertion.run (⟨plainPath, .empty⟩, leftDisk 0o644) = .ok () (s', d') ∧
    Written plainPath s'.records d' ∧ d'.modeAt? plainPath = some 0o644 ∧ 0o644 ≠ fileMode := by
  obtain ⟨⟨s', d'⟩, hrun⟩ : ∃ w', insertion.run (⟨plainPath, .empty⟩, leftDisk 0o644) = .ok () w' :=
    ⟨_, outcome_eq_ok.1 (by decide +kernel)⟩
  have hmode : (leftDisk 0o644).modeAt? (plainPath.extend ".tmp") = some 0o644 := by decide +kernel
  have hleft := (leftBeside_of_modeAt? plainPath (leftDisk 0o644)).1 _ hmode
  obtain ⟨name, hremove, -⟩ | ⟨-, hw⟩ := Change.run_eq_ok hrun
  · cases hremove
  · have hopen := modeAt?_of_replaceFile hw
    rw [hleft] at hopen
    exact ⟨s', d', hrun, find_of_replaceFile hw, hopen, by decide⟩

end Store

end VaultAgent
