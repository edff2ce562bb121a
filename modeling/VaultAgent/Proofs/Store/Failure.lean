import VaultAgent.Proofs.Store.Cascade

/-!
# What a failure leaves

A change that fails is taken back in memory. The content that the path leads to stays, too, however far
the writing got, except where nothing was at the path and making its parents uncovers a file
(`unchanged_iff_of_failure`).
-/

namespace VaultAgent.Store

open VaultAgent.Action

/-- A reload that fails, or a change that is refused, leaves all as it was. A change that cannot be
written leaves the records as they were, and the content at the path if and only if the path does not
uncover a file. It may do so only where there was no file, and not without leading up again. -/
theorem unchanged_iff_of_failure (s : Store) (d : Disk) :
    (∀ e s' d', reload (s, d) = .error e (s', d') → s' = s ∧ d' = d) ∧
    (∀ (c : Change) e s' d', c.run (s, d) = .error e (s', d') → s' = s ∧
      ((∀ cause, e ≠ .io cause) → d' = d) ∧
      (d'.contentAt? s.path = d.contentAt? s.path ↔
        ((∃ cause, e = .io cause) → ¬ d.Uncovers s.path))) ∧
    (d.Uncovers s.path →
      d.contentAt? s.path = none ∧ (d.IsTree → ".." ∈ s.path.pieces)) := by
  refine ⟨fun e s' d' h => ?_, fun c e s' d' h => ?_, fun h => ?_⟩
  · cases hm : recordsAt s.path d with
    | ok m =>
      rw [reload_of_ok hm] at h
      cases h
    | error e' =>
      rw [reload_of_error hm] at h
      cases h
      exact ⟨rfl, rfl⟩
  · obtain ⟨hs, ⟨rfl, hio⟩ | ⟨content, cause, rfl, hw⟩⟩ := c.run_eq_error h
    · exact ⟨hs, fun _ => rfl, iff_of_true rfl fun ⟨cause, he⟩ => absurd he (hio cause)⟩
    · refine ⟨hs, fun hio => absurd rfl (hio cause), ?_⟩
      rw [contentAt?_of_replaceFile_error hw]
      exact ⟨fun hsame _ hu => hu hsame, fun h => not_not.1 (h ⟨cause, rfl⟩)⟩
  · exact ⟨Disk.none_of_uncovers h, fun ht => Disk.dots_of_uncovers ht h⟩

/-- A disk with a file of these records, on which no file can be read or moved. -/
def stuckDisk (m : Records) : Disk :=
  { diskWith m with fault? := fun
      | .read _ | .move _ _ => some ⟨.fault "I/O error", 0⟩
      | _ => none }

theorem isTree_diskWith (m : Records) : (diskWith m).IsTree :=
  Disk.IsTree.empty.put rfl (by decide)

/-- The records of a whole cascade are back, and the file has not changed. -/
theorem unchanged_of_stuck_cascade :
    (∃ e s' d', reload (⟨plainPath, nameless⟩, stuckDisk tangled) = .error e (s', d') ∧
      s' = ⟨plainPath, nameless⟩ ∧ d' = stuckDisk tangled) ∧
    ∃ e s' d', (Change.remove "a").run (⟨plainPath, tangled⟩, stuckDisk tangled) =
        .error e (s', d') ∧ s' = ⟨plainPath, tangled⟩ ∧
      d'.contentAt? plainPath = (stuckDisk tangled).contentAt? plainPath := by
  obtain ⟨⟨s', d'⟩, hreload⟩ : ∃ w', reload (⟨plainPath, nameless⟩, stuckDisk tangled) =
      .error (.io (.fault "I/O error")) w' := ⟨_, outcome_eq_error.1 (by decide +kernel)⟩
  obtain ⟨⟨s'', d''⟩, hremove⟩ : ∃ w', (Change.remove "a").run
        (⟨plainPath, tangled⟩, stuckDisk tangled) = .error (.io (.fault "I/O error")) w' :=
    ⟨_, outcome_eq_error.1 (by decide +kernel)⟩
  refine ⟨⟨_, s', d', hreload, ?_⟩, _, s'', d'', hremove, ?_⟩
  · exact (unchanged_iff_of_failure _ _).1 _ _ _ hreload
  · obtain ⟨-, hchange, huncovers⟩ :=
      unchanged_iff_of_failure ⟨plainPath, tangled⟩ (stuckDisk tangled)
    obtain ⟨hs, -, hcontent⟩ := hchange _ _ _ _ hremove
    refine ⟨hs, hcontent.2 fun _ hu => ?_⟩
    exact absurd ((huncovers hu).2 (isTree_diskWith tangled)) (by decide)

/-- A path to the file in the working directory, by a directory that is not there. -/
def roundaboutPath : Path := ⟨"a/../agent_storage.json"⟩

/-- A disk with a file of these records, beside which nothing can be written. -/
def blockedDisk (m : Records) : Disk :=
  (diskWith m).put ["agent_storage.json.tmp"] .directory

/-- There is no file at the path. An insertion fails, and after that there is one. -/
theorem failed_insertion_uncovers_file : ∃ e w',
    (Change.insert ⟨⟨"k", "", "", "", []⟩, []⟩).run (⟨roundaboutPath, .empty⟩, blockedDisk nameless) =
      .error e w' ∧
    (blockedDisk nameless).contentAt? roundaboutPath = none ∧
    w'.2.contentAt? roundaboutPath = some nameless.toDocument := by
  have hinsert : (Change.insert ⟨⟨"k", "", "", "", []⟩, []⟩).run
      (⟨roundaboutPath, .empty⟩, blockedDisk nameless) = .error (.io .isDirectory) _ :=
    outcome_eq_error.1 (by decide +kernel)
  exact ⟨_, _, hinsert, by decide +kernel, by decide +kernel⟩

end VaultAgent.Store
