import VaultAgent.Proofs.Disk.Lookup

/-!
# What the steps on files do

Each step that succeeds says what it found and what it left. None of them changes which places hold
directories, and none of them changes the faults of the disk. A step that fails has changed nothing, but
for a part of what was to be written.
-/

namespace VaultAgent.Disk

open VaultAgent.Action

variable {d d' : Disk} {p source target : Path} {place : Place} {bytes : List UInt8} {mode : Nat}

theorem fault?_put (place : Place) (node : Node) : (d.put place node).fault? = d.fault? := rfl

@[simp] theorem node?_put_self (place : Place) (node : Node) :
    (d.put place node).node? place = some node := by
  simp [put]

@[simp] theorem put_put (place : Place) (node node' : Node) :
    (d.put place node).put place node' = d.put place node' := by
  simp only [put, Disk.mk.injEq, and_true]
  funext q; split <;> rfl

theorem ask_of_ok {α : Type} {question : Disk → Except OsError α} {x : α}
    (h : question d = .ok x) : ask question d = .ok x d := by
  rw [ask, get_bind, h]
  rfl

theorem ask_bind_eq_ok {α β : Type} {question : Disk → Except OsError α} {f : α → DiskAction β}
    {y : β} : (ask question >>= f) d = .ok y d' ↔ ∃ x, question d = .ok x ∧ f x d = .ok y d' := by
  rw [bind_eq_ok]
  constructor
  · rintro ⟨x, t, h, hf⟩
    obtain ⟨hx, rfl⟩ := ofExcept_eq_ok.1 h
    exact ⟨x, hx, hf⟩
  · rintro ⟨x, hx, hf⟩
    exact ⟨x, d, ofExcept_eq_ok.2 ⟨hx, rfl⟩, hf⟩

theorem checkFault_of_none {step : DiskStep} (h : d.fault? step = none) :
    checkFault step d = .ok () d := by
  simp [checkFault, h]

theorem checkFault_bind_eq_ok {β : Type} {step : DiskStep} {f : Unit → DiskAction β} {y : β} :
    (checkFault step >>= f) d = .ok y d' ↔ d.fault? step = none ∧ f () d = .ok y d' := by
  rw [bind_eq_ok, checkFault]
  cases d.fault? step
  · simp only [EStateM.Result.ok.injEq, true_and]
    exact ⟨fun ⟨_, _, ht, hf⟩ => ht ▸ hf, fun hf => ⟨(), d, rfl, hf⟩⟩
  · simp

/-- What is read is the content of a file. -/
theorem contentAt?_of_read (h : read p d = .ok bytes d') : d.contentAt? p = some bytes := by
  obtain ⟨⟨place, node⟩, hf, h⟩ := ask_bind_eq_ok.1 h
  obtain ⟨-, h⟩ := checkFault_bind_eq_ok.1 h
  cases node with
  | directory => cases h
  | socket mode id => cases h
  | file mode content =>
    obtain ⟨-, h⟩ := guard_eq_ok.1 h
    cases h
    exact contentAt?_eq_some.2 ⟨place, mode, hf⟩

/-- Opening a file leaves an empty one, of the mode that it had or, if it is new, of the mode that was
asked for. -/
theorem openFile_eq_ok (h : openFile p mode d = .ok place d') :
    ∃ mode', d.EndsAt p place ∧ d.fault? (.openFile place) = none ∧
      (d.node? place = none ∧ mode' = newMode mode ∨
        ∃ content, d.node? place = some (.file mode' content) ∧ isWritable mode' = true) ∧
      d' = d.put place (.file mode' []) := by
  obtain ⟨g, hg, h⟩ := ask_bind_eq_ok.1 h
  split at h
  case h_1 | h_2 => cases h
  rename_i parent name
  obtain ⟨q, he, h⟩ := ask_bind_eq_ok.1 h
  obtain ⟨hf, h⟩ := checkFault_bind_eq_ok.1 h
  rw [get_bind] at h
  cases hn : d.node? q with
  | none =>
    simp only [hn] at h
    cases h
    exact ⟨_, ⟨parent, name, hg, he⟩, hf, .inl ⟨hn, rfl⟩, rfl⟩
  | some node =>
    simp only [hn] at h
    cases node with
    | directory => cases h
    | socket mode' id => cases h
    | file mode' content =>
      obtain ⟨hw, h⟩ := guard_eq_ok.1 h
      cases h
      exact ⟨_, ⟨parent, name, hg, he⟩, hf, .inr ⟨content, hn, by simpa using hw⟩, rfl⟩

theorem ne_directory_of_openFile (h : openFile p mode d = .ok place d') :
    d.node? place ≠ some .directory := by
  obtain ⟨mode', -, -, ⟨hn, -⟩ | ⟨content, hn, -⟩, -⟩ := openFile_eq_ok h <;> simp [hn]

theorem append_eq_ok {u : Unit} (h : append place bytes d = .ok u d') :
    ∃ mode content, d.node? place = some (.file mode content) ∧ d.fault? (.write place) = none ∧
      d' = d.put place (.file mode (content ++ bytes)) := by
  unfold append at h
  split at h
  · rename_i mode content hn
    split at h
    · rename_i hf; cases h; exact ⟨mode, content, hn, hf, rfl⟩
    · cases h
  · cases h

/-- Moving takes a node that is no directory from its place and puts it at another, where there is no
directory either. -/
theorem move_eq_ok {u : Unit} (h : move source target d = .ok u d') :
    ∃ s t node, d.EndsAt source s ∧ d.EndsAt target t ∧ d.fault? (.move s t) = none ∧
      d.node? s = some node ∧ node ≠ .directory ∧ d.node? t ≠ some .directory ∧
      d' = (d.drop s).put t node := by
  obtain ⟨g, hs, h⟩ := ask_bind_eq_ok.1 h
  obtain ⟨g', ht, h⟩ := ask_bind_eq_ok.1 h
  cases g with
  | directory => cases g' <;> cases h
  | entry sp sn ss =>
  cases g' with
  | directory => cases h
  | entry tp tn ts =>
  obtain ⟨s, hes, h⟩ := ask_bind_eq_ok.1 h
  obtain ⟨t, het, h⟩ := ask_bind_eq_ok.1 h
  obtain ⟨hf, h⟩ := checkFault_bind_eq_ok.1 h
  rw [get_bind] at h
  obtain ⟨node, hn, hne, h⟩ : ∃ node, d.node? s = some node ∧ node ≠ .directory ∧ (do
      if ss || ts then throw OsError.notDirectory
      if (← get).node? t = some .directory then throw .isDirectory
      modify fun d => (d.drop s).put t node : DiskAction Unit) d = .ok u d' := by
    cases hn : d.node? s with
    | none => simp only [hn] at h; cases h
    | some node =>
      simp only [hn] at h
      cases node with
      | directory => cases h
      | socket mode id => exact ⟨_, rfl, nofun, h⟩
      | file mode content => exact ⟨_, rfl, nofun, h⟩
  obtain ⟨hsl, h⟩ := guard_eq_ok.1 h
  obtain ⟨hd, h⟩ := guard_eq_ok.1 h
  cases h
  obtain ⟨rfl, rfl⟩ : ss = false ∧ ts = false := by simpa using hsl
  exact ⟨s, t, node, ⟨sp, sn, hs, hes⟩, ⟨tp, tn, ht, het⟩, hf, hn, hne, hd, rfl⟩

/-! ## Steps that fail -/

theorem asks_ask {α : Type} (question : Disk → Except OsError α) : (ask question).Asks :=
  .bind .get fun _ => .ofExcept _ _

theorem asks_checkFault (step : DiskStep) : (checkFault step).Asks := fun d => by
  unfold after checkFault
  cases d.fault? step <;> rfl

theorem failsClean_openFile (p : Path) (mode : Nat) : (openFile p mode).FailsClean := by
  refine .bind (asks_ask _) fun g => ?_
  split
  case h_1 | h_2 => exact (Asks.throw _).failsClean
  refine .bind (asks_ask _) fun place => .bind (asks_checkFault _) fun _ => .bind .get fun d => ?_
  split
  · exact .bind_pure (.modify _)
  · exact (Asks.throw _).failsClean
  · exact (Asks.throw _).failsClean
  · split
    · exact (Asks.throw _).failsClean
    · exact .bind_pure (.modify _)

theorem failsClean_move (source target : Path) : (move source target).FailsClean := by
  refine .bind (asks_ask _) fun g => .bind (asks_ask _) fun g' => ?_
  split
  case h_2 => exact (Asks.throw _).failsClean
  refine .bind (asks_ask _) fun s => .bind (asks_ask _) fun t => .bind (asks_checkFault _) fun _ =>
    .bind .get fun d => ?_
  split
  · exact (Asks.throw _).failsClean
  · exact (Asks.throw _).failsClean
  · split
    · exact (Asks.throw _).failsClean
    · refine .bind .get fun d' => ?_
      split
      · exact (Asks.throw _).failsClean
      · exact .modify _

/-- Writing that fails may have written a part. -/
theorem append_eq_error {e : OsError} (h : append place bytes d = .error e d') : d' = d ∨
    ∃ mode content part, d.node? place = some (.file mode content) ∧
      d' = d.put place (.file mode (content ++ part)) := by
  unfold append at h
  split at h
  · rename_i mode content hn
    split at h
    · cases h
    · cases h
      exact .inr ⟨mode, content, _, hn, rfl⟩
  · cases h
    exact .inl rfl

end VaultAgent.Disk
