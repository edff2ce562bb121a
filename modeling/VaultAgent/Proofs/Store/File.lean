import VaultAgent.Proofs.Disk.Directory
import VaultAgent.Proofs.Store.Document
import VaultAgent.Store

/-!
# The file of a store

`recordsAt path d` are the records that are kept in the file at a path. A file that is replaced and
can be read holds what was written (`read_of_replaceFile`); one that could not be replaced has not been
touched (`contentAt?_of_replaceFile_error`). Where a statement is about a file that gives no trouble, it
assumes `FileWorks`: the file can be replaced as often as one likes, and read after that.
-/

namespace VaultAgent.Store

open VaultAgent.Action

variable {path : Path} {d d' : Disk} {content bytes : List UInt8}

/-! ## Reading -/

theorem asks_read (path : Path) : (Disk.read path).Asks := by
  refine .bind (Disk.asks_ask _) fun x => ?_
  refine .bind (Disk.asks_checkFault _) fun _ => ?_
  split
  · exact .throw _
  · exact .throw _
  · split
    · exact .bind (.throw _) fun _ => .pure _
    · exact .pure _

theorem asks_readRecords (path : Path) : (readRecords path).Asks := by
  refine .bind (.attempt (asks_read path)) fun r => ?_
  split
  · exact .pure _
  · exact .throw _
  · split
    · exact .pure _
    · exact .throw _

/-- The records in the file at a path. There are none in a file that is not there. -/
def recordsAt (path : Path) (d : Disk) : Except StoreError Records :=
  (readRecords path).outcome d

theorem recordsAt_of_read {m : Records} (h : Disk.read path d = .ok m.toDocument d) :
    recordsAt path d = .ok m := by
  have hb : readRecords path d = .ok m d := by
    refine (bind_of_ok (attempt_of_ok h)).trans ?_
    simp only [Records.ofDocument?_toDocument]
    rfl
  exact outcome_of_ok hb

/-! ## Replacing -/

/-- A file is replaced by one that was written beside it. That one was new, or is one that was left
there and keeps its mode. -/
theorem replaceFile_eq_ok {u : Unit} (h : replaceFile path content d = .ok u d') :
    ∃ d₁ s t mode, Disk.makeParents path d = .ok () d₁ ∧ d₁.EndsAt (path.extend ".tmp") s ∧
      (d₁.node? s = none ∧ mode = Disk.newMode fileMode ∨
        ∃ old, d₁.node? s = some (.file mode old) ∧ Disk.isWritable mode = true) ∧
      d'.EndsAt path t ∧
      d' = ((d₁.put s (.file mode content)).drop s).put t (.file mode content) := by
  obtain ⟨u, d₁, hp, h⟩ := bind_eq_ok.1 h
  obtain ⟨place, d₂, ho, h⟩ := bind_eq_ok.1 h
  obtain ⟨u, d₃, ha, h⟩ := bind_eq_ok.1 h
  obtain ⟨-, h⟩ := Disk.checkFault_bind_eq_ok.1 h
  have hd := Disk.ne_directory_of_openFile ho
  obtain ⟨mode, hends, -, hn, rfl⟩ := Disk.openFile_eq_ok ho
  obtain ⟨mode', content', hn', -, rfl⟩ := Disk.append_eq_ok ha
  obtain ⟨rfl, rfl⟩ : mode = mode' ∧ [] = content' := by simpa using hn'
  obtain ⟨s, t, node, hs, ht, -, hns, -, hnt, rfl⟩ := Disk.move_eq_ok h
  simp only [Disk.put_put, List.nil_append] at hs ht hns hnt ⊢
  -- The file beside it was no directory, so its path still leads to where it was opened.
  have hput := Disk.SameDirectories.put hd (nofun : Node.file mode content ≠ .directory)
  obtain rfl : place = s := (hends.congr hput).unique hs
  obtain rfl : Node.file mode content = node := by simpa using hns
  exact ⟨d₁, place, t, mode, hp, hends, hn, ht.congr (.move (by simp) hnt nofun), rfl⟩

/-- A file that has been replaced holds the new content. -/
theorem find_of_replaceFile {u : Unit} (h : replaceFile path content d = .ok u d') :
    ∃ place mode, d'.find path = .ok (place, .file mode content) := by
  obtain ⟨d₁, s, t, mode, -, -, -, hends, rfl⟩ := replaceFile_eq_ok h
  exact ⟨t, mode, hends.find (by simp) nofun⟩

/-- A replacement that fails may have made directories and written beside the file. -/
theorem replaceFile_eq_error {e : OsError} (h : replaceFile path content d = .error e d') :
    d' = (Disk.makeParents path).after d ∨ ∃ s mode written,
      ((Disk.makeParents path).after d).EndsAt (path.extend ".tmp") s ∧
      ((Disk.makeParents path).after d).node? s ≠ some .directory ∧
      d' = ((Disk.makeParents path).after d).put s (.file mode written) := by
  rcases bind_eq_error.1 h with h | ⟨u, d₁, hp, h⟩
  · exact .inl (after_of_error h).symm
  rw [after_of_ok hp]
  rcases bind_eq_error.1 h with h | ⟨place, d₂, ho, h⟩
  · exact .inl (Disk.failsClean_openFile _ _ _ _ _ h)
  have hd := Disk.ne_directory_of_openFile ho
  obtain ⟨mode, hends, -, -, rfl⟩ := Disk.openFile_eq_ok ho
  refine .inr ⟨place, mode, ?_⟩
  rcases bind_eq_error.1 h with h | ⟨u, d₃, ha, h⟩
  · rcases Disk.append_eq_error h with rfl | ⟨mode', content', part, hn', rfl⟩
    · exact ⟨[], hends, hd, rfl⟩
    · obtain ⟨rfl, rfl⟩ : mode = mode' ∧ [] = content' := by simpa using hn'
      exact ⟨part, hends, hd, Disk.put_put ..⟩
  · obtain ⟨mode', content', hn', -, rfl⟩ := Disk.append_eq_ok ha
    obtain ⟨rfl, rfl⟩ : mode = mode' ∧ [] = content' := by simpa using hn'
    have hlast := FailsClean.bind (Disk.asks_checkFault (.sync place))
      (fun _ => Disk.failsClean_move (path.extend ".tmp") path)
    exact ⟨content, hends, hd, (hlast _ _ _ h).trans (Disk.put_put ..)⟩

/-- If it fails, the path leads to the content that it leads to once its parents are made. -/
theorem contentAt?_of_replaceFile_error {e : OsError} (h : replaceFile path content d = .error e d') :
    d'.contentAt? path = ((Disk.makeParents path).after d).contentAt? path := by
  rcases replaceFile_eq_error h with heq | ⟨s, mode, written, hs, hd, heq⟩
  · rw [heq]
  · rw [heq]
    exact Disk.contentAt?_put_beside (by decide) (by decide) hs hd nofun

theorem read_of_replaceFile {u : Unit} (h : replaceFile path content d = .ok u d')
    (hr : Disk.read path d' = .ok bytes d') : bytes = content :=
  Option.some.inj ((Disk.contentAt?_of_read hr).symm.trans
    (Disk.contentAt?_eq_some.2 (find_of_replaceFile h)))

/-- The file at a path can be replaced as often as one likes, and read after that. -/
def FileWorks (path : Path) (d : Disk) : Prop :=
  ∀ content contents, ∃ bytes d', (content :: contents).forM (replaceFile path) d = .ok () d' ∧
    Disk.read path d' = .ok bytes d'

theorem FileWorks.replace (h : FileWorks path d) (content : List UInt8) :
    ∃ d', replaceFile path content d = .ok () d' ∧ Disk.read path d' = .ok content d' ∧
      FileWorks path d' := by
  obtain ⟨bytes, d', hw, hr⟩ := h content []
  obtain ⟨u, d₁, hw, hn⟩ := bind_eq_ok.1 hw
  cases hn
  obtain rfl := read_of_replaceFile hw hr
  refine ⟨d', hw, hr, fun c cs => ?_⟩
  obtain ⟨bytes', d₂, hw₂, hr₂⟩ := h bytes (c :: cs)
  obtain ⟨u, d₁, hw₁, hw₂⟩ := bind_eq_ok.1 hw₂
  obtain ⟨-, rfl⟩ := EStateM.Result.ok.inj (hw.symm.trans hw₁)
  exact ⟨bytes', d₂, hw₂, hr₂⟩

end VaultAgent.Store
