import VaultAgent.Proofs.Store.Cascade

/-!
# Opening what was written

A change that succeeds leaves its records in the file, as a document that reads back as those records,
whatever their names and fields are. So a store that is opened afresh is the one that was written, if the
system lets the file be read. It does on a disk where what can be written can be read (`ReadsBack`):
the file has the mode of a new one, or of one that was left beside it.
-/

namespace VaultAgent

open VaultAgent.Action

/-- Reading has no faults, and the owner of a file may read it if he may write it. -/
structure Disk.ReadsBack (d : Disk) : Prop where
  faultless : ∀ place, d.fault? (.read place) = none
  readable : ∀ place mode content, d.node? place = some (.file mode content) →
    isWritable mode = true → isReadable mode = true

namespace Store

variable {path : Path} {s s' : Store} {d d' d'' : Disk} {m : Records} {content bytes : List UInt8}
  {u : Unit}

theorem readable_of_replaceFile (hd : d.ReadsBack) (h : replaceFile path content d = .ok u d') :
    ∃ bytes d'', Disk.read path d' = .ok bytes d'' := by
  obtain ⟨d₁, s, t, mode, hp, -, hmode, hends, rfl⟩ := replaceFile_eq_ok h
  have hg : Disk.Grows d d₁ := after_of_ok hp ▸ Disk.grows_makeParents d path
  have hr : Disk.isReadable mode = true := by
    rcases hmode with ⟨-, rfl⟩ | ⟨old, hold, hw⟩
    · decide
    · exact hd.readable s mode old ((hg.adds _ _ hold).resolve_left nofun) hw
  have hfault : d₁.fault? (.read t) = none := hg.faults ▸ hd.faultless t
  exact ⟨content, _, Disk.read_of_endsAt hends hfault (Disk.node?_put_self _ _) hr⟩

theorem open_of_read (h : Disk.read path d = .ok m.toDocument d) : «open» path d = .ok ⟨path, m⟩ d := by
  have hr := outcome_eq_ok.1 (recordsAt_of_read h)
  rw [asks_readRecords] at hr
  exact bind_of_ok hr

/-- The store was written to the file at its path, over what was there on the disk `d`. -/
structure Reopens (path : Path) (d : Disk) (s' : Store) (d' : Disk) : Prop where
  same : s'.path = path
  written : Written path s'.records d'
  opens : ∀ bytes d'', Disk.read path d' = .ok bytes d'' → «open» path d' = .ok s' d'
  readable : d.ReadsBack → ∃ bytes d'', Disk.read path d' = .ok bytes d''

theorem Reopens.of_replaceFile (hs : s'.path = path)
    (h : replaceFile path s'.records.toDocument d = .ok u d') : Reopens path d s' d' where
  same := hs
  written := find_of_replaceFile h
  opens bytes d'' hr := by
    obtain rfl : d'' = d' := (after_of_ok hr).symm.trans (asks_read path d')
    obtain rfl := read_of_replaceFile h hr
    subst hs
    exact open_of_read hr
  readable hd := readable_of_replaceFile hd h

/-- Every document that is written reads back as the records that it was written from, and a change that
succeeds writes the records that are then in memory, unless there was nothing to remove. -/
theorem reopens_of_change (s : Store) (d : Disk) :
    (∀ m : Records, Records.ofDocument? m.toDocument = some m) ∧
    ∀ (c : Change) s' d', c.run (s, d) = .ok () (s', d') →
      (∃ name, c = .remove name ∧ s.contains name = false ∧ s' = s ∧ d' = d) ∨
        Reopens s.path d s' d' := by
  refine ⟨Records.ofDocument?_toDocument, fun c s' d' h => ?_⟩
  exact (c.run_eq_ok h).imp_right fun ⟨hs, hw⟩ => .of_replaceFile hs hw

/-- Names and fields with all that a document has to escape. -/
def oddSecret : Secret :=
  ⟨⟨"\"\\/\u0000\n\u001f\u007f\u2028𝄞", "", "\t", "\"", [0, 255, 128]⟩, [⟨"", "", "", "", []⟩]⟩

theorem readsBack_diskWith (m : Records) : (diskWith m).ReadsBack where
  faultless _ := rfl
  readable place mode content h := by
    simp only [diskWith, Disk.put, Disk.empty] at h
    split at h
    · cases h
      decide
    · split at h <;> cases h

theorem reopens_of_odd_secret :
    ∃ s' d', (Change.insert oddSecret).run (⟨plainPath, nameless⟩, diskWith nameless) =
        .ok () (s', d') ∧
      s'.records = nameless.withSecret oddSecret ∧ «open» plainPath d' = .ok s' d' := by
  have ha : nameless.Accepts oddSecret := ⟨by decide, by rintro _ ⟨⟩; decide⟩
  obtain ⟨d', h, -⟩ := insert_of_accepts (s := ⟨plainPath, nameless⟩) ha (holds_diskWith nameless).2
  refine ⟨_, d', h, rfl, ?_⟩
  rcases (reopens_of_change _ _).2 (.insert oddSecret) _ _ h with ⟨name, hc, -⟩ | hr
  · cases hc
  · obtain ⟨bytes, d'', hread⟩ := hr.readable (readsBack_diskWith nameless)
    exact hr.opens bytes d'' hread

end Store

end VaultAgent
