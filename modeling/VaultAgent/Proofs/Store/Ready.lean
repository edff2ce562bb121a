import VaultAgent.Proofs.Store

/-!
# When a file works

Nothing hinders a file from being replaced if the disk has no faults, the directories in front of it
are there, and at its place and the one beside it there is nothing, or files that their owner may read
and write (`Ready`). A replacement leaves the disk like that, so the file works (`Ready.fileWorks`).
-/

namespace VaultAgent

open VaultAgent.Action

namespace Disk

variable {d d' : Disk} {p : Path} {place : Place} {parent name : String} {bytes : List UInt8}

/-- A file that is opened has the mode of the one that was there, or the new one. -/
theorem openFile_of_endsAt {mode mode' : Nat} (h : d.EndsAt p place)
    (hf : d.fault? (.openFile place) = none)
    (hn : d.node? place = none ∧ mode' = newMode mode ∨
      ∃ content, d.node? place = some (.file mode' content) ∧ isWritable mode' = true) :
    openFile p mode d = .ok place (d.put place (.file mode' [])) := by
  obtain ⟨parent, name, hg, he⟩ := h
  rw [openFile, bind_of_ok (ask_of_ok hg)]
  simp only
  rw [bind_of_ok (ask_of_ok he), bind_of_ok (checkFault_of_none hf), get_bind]
  rcases hn with ⟨hn, rfl⟩ | ⟨content, hn, hw⟩
  · simp only [hn]
    rfl
  · simp only [hn, hw, Bool.not_true, Bool.false_eq_true, if_false]
    rfl

theorem move_of_endsAt {source target : Path} {s t : Place} {mode : Nat} (hs : d.EndsAt source s)
    (ht : d.EndsAt target t) (hf : d.fault? (.move s t) = none)
    (hn : d.node? s = some (.file mode bytes)) (hd : d.node? t ≠ some .directory) :
    move source target d = .ok () ((d.drop s).put t (.file mode bytes)) := by
  obtain ⟨sp, sn, hgs, hes⟩ := hs
  obtain ⟨tp, tn, hgt, het⟩ := ht
  rw [move, bind_of_ok (ask_of_ok hgs), bind_of_ok (ask_of_ok hgt)]
  simp only
  rw [bind_of_ok (ask_of_ok hes), bind_of_ok (ask_of_ok het), bind_of_ok (checkFault_of_none hf),
    get_bind]
  simp only [hn, Bool.or_self, Bool.false_eq_true, if_false]
  rw [get_bind]
  simp only [hd, if_false]
  rfl

theorem read_of_endsAt {mode : Nat} (h : d.EndsAt p place) (hf : d.fault? (.read place) = none)
    (hn : d.node? place = some (.file mode bytes)) (hr : isReadable mode = true) :
    read p d = .ok bytes d := by
  rw [read, bind_of_ok (ask_of_ok (h.find hn nofun))]
  simp only
  rw [bind_of_ok (checkFault_of_none hf)]
  simp only [hr, Bool.not_true, Bool.false_eq_true, if_false]
  rfl

end Disk

namespace Store

open Disk

variable {path : Path} {s t : Place} {d : Disk}

/-- Nothing hinders the file at `t` from being replaced through the one at `s`. -/
structure Ready (path : Path) (s t : Place) (d : Disk) : Prop where
  faultless : ∀ step, d.fault? step = none
  parents : ∀ d', SameDirectories d d' → makeParents path d' = .ok () d'
  beside : d.EndsAt (path.extend ".tmp") s
  target : d.EndsAt path t
  ne : s ≠ t
  free : d.node? s = none ∨ ∃ mode content, d.node? s = some (.file mode content) ∧
    isWritable mode = true ∧ isReadable mode = true
  noDirectory : d.node? t ≠ some .directory

theorem Ready.replace (h : Ready path s t d) (content : List UInt8) :
    ∃ d', replaceFile path content d = .ok () d' ∧ Disk.read path d' = .ok content d' ∧
      Ready path s t d' := by
  obtain ⟨mode, hr, hn⟩ : ∃ mode, isReadable mode = true ∧
      (d.node? s = none ∧ mode = newMode fileMode ∨
        ∃ old, d.node? s = some (.file mode old) ∧ isWritable mode = true) := by
    rcases h.free with hn | ⟨mode, old, hn, hw, hr⟩
    · exact ⟨_, by decide, .inl ⟨hn, rfl⟩⟩
    · exact ⟨mode, hr, .inr ⟨old, hn, hw⟩⟩
  have hs : d.node? s ≠ some .directory := by
    rcases hn with ⟨hn, -⟩ | ⟨old, hn, -⟩ <;> simp [hn]
  -- the disks after the opening, the writing and the moving
  have hopen := openFile_of_endsAt h.beside (h.faultless _) hn
  have happend : append s content (d.put s (.file mode [])) =
      .ok () (d.put s (.file mode content)) := by
    simp [append, fault?_put, h.faultless]
  have hsync : (d.put s (.file mode content)).fault? (.sync s) = none := h.faultless _
  have hput : SameDirectories d (d.put s (.file mode content)) := .put hs nofun
  have ht : (d.put s (.file mode content)).node? t ≠ some .directory :=
    fun hd => h.noDirectory ((hput t).1 hd)
  have hmove := move_of_endsAt (h.beside.congr hput) (h.target.congr hput) (h.faultless _)
    (node?_put_self s _) ht
  have hmoved : SameDirectories (d.put s (.file mode content))
      (((d.put s (.file mode content)).drop s).put t (.file mode content)) :=
    .move (by simp) ht nofun
  have hall := hput.trans hmoved
  refine ⟨_, ?_, read_of_endsAt (h.target.congr hall) (h.faultless _) (node?_put_self t _) hr, ?_⟩
  · rw [replaceFile, bind_of_ok (h.parents d (.refl d)), bind_of_ok hopen, bind_of_ok happend]
    exact (bind_of_ok (checkFault_of_none hsync)).trans hmove
  · exact {
      faultless := h.faultless
      parents := fun d' hd => h.parents d' (hall.trans hd)
      beside := h.beside.congr hall
      target := h.target.congr hall
      ne := h.ne
      free := .inl (by simp [put, drop, h.ne])
      noDirectory := by simp }

theorem Ready.fileWorks (h : Ready path s t d) : FileWorks path d := by
  intro content contents
  induction contents generalizing content d with
  | nil =>
    obtain ⟨d', hw, hr, -⟩ := h.replace content
    exact ⟨content, d', bind_of_ok hw, hr⟩
  | cons next contents ih =>
    obtain ⟨d₁, hw, -, h₁⟩ := h.replace content
    obtain ⟨bytes, d', hws, hr⟩ := ih h₁ next
    exact ⟨bytes, d', (bind_of_ok hw).trans hws, hr⟩

/-! ## A file in the working directory -/

/-- A path that is only a name. -/
def plainPath : Path := ⟨"agent_storage.json"⟩

/-- A disk on which there is only a file with these records. -/
def diskWith (m : Records) : Disk :=
  Disk.empty.put [plainPath.text] (.file fileMode m.toDocument)

theorem ready_diskWith (m : Records) :
    Ready plainPath [(plainPath.extend ".tmp").text] [plainPath.text] (diskWith m) := by
  have hd : SameDirectories Disk.empty (diskWith m) := .put (by decide) nofun
  exact {
    faultless := fun _ => rfl
    parents := fun d _ => by
      have hnone : plainPath.parent.ancestors = [] := by decide
      rw [makeParents, makeDirectories, hnone]
      rfl
    beside := .congr ⟨[], (plainPath.extend ".tmp").text, by decide, by decide⟩ hd
    target := .congr ⟨[], plainPath.text, by decide, by decide⟩ hd
    ne := by decide
    free := .inl rfl
    noDirectory := by simp [diskWith] }

/-- A record that says nothing but its group. -/
def Record.plain (group : String) : Record :=
  ⟨"", "", "", "", group⟩

theorem holds_diskWith (m : Records) : Holds plainPath m (diskWith m) := by
  have h := ready_diskWith m
  exact ⟨recordsAt_of_read (read_of_endsAt h.target (h.faultless _) (node?_put_self _ _) (by decide)),
    h.fileWorks⟩

end Store

end VaultAgent
