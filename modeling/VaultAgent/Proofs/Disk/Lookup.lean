import VaultAgent.Disk.File
import VaultAgent.Disk.Directory
import VaultAgent.Proofs.Action
import VaultAgent.Proofs.Path

/-!
# Where paths lead, when files change

A path leads through directories, so where it leads depends on nothing but them: a change of files
and sockets (`SameDirectories`) leaves every path that leads somewhere where it led, and so does one
that adds directories (`KeepsDirectories`). A path with something written behind it leads somewhere
else (`locate_extend_ne`).
-/

namespace VaultAgent.Disk

variable {d d' : Disk} {p : Path} {place : Place} {node : Node} {g : Goal}

/-- The same places hold directories. -/
def SameDirectories (d d' : Disk) : Prop :=
  ∀ place, d'.node? place = some .directory ↔ d.node? place = some .directory

namespace SameDirectories

theorem refl (d : Disk) : SameDirectories d d := fun _ => Iff.rfl

theorem trans {d'' : Disk} (h : SameDirectories d d') (h' : SameDirectories d' d'') :
    SameDirectories d d'' := fun place => (h' place).trans (h place)

theorem symm (h : SameDirectories d d') : SameDirectories d' d := fun place => (h place).symm

theorem put (hd : d.node? place ≠ some .directory) (hn : node ≠ .directory) :
    SameDirectories d (d.put place node) := by
  intro q
  by_cases h : q = place
  · subst h; simp [Disk.put, hd, hn]
  · simp [Disk.put, h]

theorem drop (hd : d.node? place ≠ some .directory) : SameDirectories d (d.drop place) := by
  intro q
  by_cases h : q = place
  · subst h; simp [Disk.drop, hd]
  · simp [Disk.drop, h]

theorem move {q : Place} (hd : d.node? place ≠ some .directory) (hq : d.node? q ≠ some .directory)
    (hn : node ≠ .directory) : SameDirectories d ((d.drop place).put q node) :=
  (drop hd).trans (put (fun h => hq ((drop hd q).1 h)) hn)

end SameDirectories

theorem enter_eq_ok : d.enter place = .ok () ↔ d.node? place = some .directory := by
  unfold enter
  split <;> simp_all

/-- The directories of one disk are directories of the other. -/
def KeepsDirectories (d d' : Disk) : Prop :=
  ∀ place, d.node? place = some .directory → d'.node? place = some .directory

theorem SameDirectories.keeps (h : SameDirectories d d') : KeepsDirectories d d' :=
  fun place => (h place).2

theorem enter_mono (h : KeepsDirectories d d') (he : d.enter place = .ok ()) :
    d'.enter place = .ok () :=
  enter_eq_ok.2 (h place (enter_eq_ok.1 he))

theorem step_mono (h : KeepsDirectories d d') {piece : String} {q : Place}
    (hs : d.step place piece = .ok q) : d'.step place piece = .ok q := by
  obtain ⟨u, he, hs⟩ := Action.except_bind_eq_ok.1 hs
  exact Action.except_bind_eq_ok.2 ⟨u, enter_mono h he, hs⟩

theorem foldlM_step_mono (h : KeepsDirectories d d') {pieces : List String} {q : Place}
    (hs : pieces.foldlM d.step place = .ok q) : pieces.foldlM d'.step place = .ok q := by
  induction pieces generalizing place with
  | nil => exact hs
  | cons piece pieces ih =>
    rw [List.foldlM_cons] at hs ⊢
    obtain ⟨r, hr, hs⟩ := Action.except_bind_eq_ok.1 hs
    exact Action.except_bind_eq_ok.2 ⟨r, step_mono h hr, ih hs⟩

/-- What the last piece of a path names, seen from the directory that it is in. -/
def goalIn (d : Disk) (p : Path) (parent : Place) : Except OsError Goal :=
  match p.pieces.getLast? with
  | none => .ok (.directory parent)
  | some last => do
    d.enter parent
    if last = "." then return .directory parent
    else if last = ".." then return .directory parent.above
    else return .entry parent last p.endsInSlash

theorem goalIn_mono (h : KeepsDirectories d d') (hg : d.goalIn p place = .ok g) :
    d'.goalIn p place = .ok g := by
  unfold goalIn at hg ⊢
  split at hg
  · exact hg
  · obtain ⟨u, he, hg⟩ := Action.except_bind_eq_ok.1 hg
    exact Action.except_bind_eq_ok.2 ⟨u, enter_mono h he, hg⟩

theorem goal_eq_ok : d.goal p = .ok g ↔
    '\x00' ∉ p.text.toList ∧ ¬ p.isEmpty = true ∧ ¬ (Utf8.bytes p.text).length ≥ pathLimit ∧
      ∃ parent, p.pieces.dropLast.foldlM d.step (start p) = .ok parent ∧
        d.goalIn p parent = .ok g := by
  simp only [goal, Action.except_guard_eq_ok, Action.except_bind_eq_ok]
  rfl

theorem goal_mono (h : KeepsDirectories d d') (hg : d.goal p = .ok g) : d'.goal p = .ok g := by
  obtain ⟨h1, h2, h3, parent, hf, hg⟩ := goal_eq_ok.1 hg
  exact goal_eq_ok.2 ⟨h1, h2, h3, parent, foldlM_step_mono h hf, goalIn_mono h hg⟩

theorem goal_congr (h : SameDirectories d d') (hg : d.goal p = .ok g) : d'.goal p = .ok g :=
  goal_mono h.keeps hg

/-- The path ends in the name of this place. -/
def EndsAt (d : Disk) (p : Path) (place : Place) : Prop :=
  ∃ parent name, d.goal p = .ok (.entry parent name false) ∧ entry parent name = .ok place

theorem EndsAt.congr (h : d.EndsAt p place) (hd : SameDirectories d d') : d'.EndsAt p place := by
  obtain ⟨parent, name, hg, he⟩ := h
  exact ⟨parent, name, goal_congr hd hg, he⟩

theorem EndsAt.locate (h : d.EndsAt p place) : d.locate p = .ok place := by
  obtain ⟨parent, name, hg, he⟩ := h
  rw [Disk.locate, hg]
  exact he

theorem EndsAt.unique {q : Place} (h : d.EndsAt p place) (h' : d.EndsAt p q) : place = q :=
  Except.ok.inj (h.locate.symm.trans h'.locate)

/-! ## What is at a path -/

theorem EndsAt.find (h : d.EndsAt p place) (hn : d.node? place = some node)
    (hnode : node ≠ .directory) : d.find p = .ok (place, node) := by
  obtain ⟨parent, name, hg, he⟩ := h
  have hp : (Goal.entry parent name false).place = .ok place := he
  simp only [Disk.find, hg, hp, hn, bind, Except.bind]
  cases node with
  | directory => exact absurd rfl hnode
  | file mode content => rfl
  | socket mode id => rfl

/-- What a path finds depends on what it names, and on what is there. -/
theorem find_congr (hg : d.goal p = .ok g) (hg' : d'.goal p = .ok g)
    (hn : ∀ place, g.place = .ok place → d'.node? place = d.node? place) :
    d'.find p = d.find p := by
  rw [find, find, hg, hg']
  cases hp : g.place with
  | error e => simp [hp, bind, Except.bind]
  | ok place => simp [hp, hn place hp, bind, Except.bind]

/-- The content of the file at a path, if there is a file. -/
def contentAt? (d : Disk) (p : Path) : Option (List UInt8) :=
  match d.find p with
  | .ok (_, .file _ content) => some content
  | _ => none

theorem contentAt?_eq_some {content : List UInt8} :
    d.contentAt? p = some content ↔ ∃ place mode, d.find p = .ok (place, .file mode content) := by
  unfold contentAt?
  split
  · rename_i place mode content' hf
    simp [hf]
  · rename_i h
    simp only [reduceCtorEq, false_iff]
    rintro ⟨place, mode, hf⟩
    exact h place mode content hf

theorem contentAt?_congr (h : d'.find p = d.find p) : d'.contentAt? p = d.contentAt? p := by
  rw [contentAt?, contentAt?, h]

theorem goal_of_find {q : Place × Node} (h : d.find p = .ok q) :
    ∃ g, d.goal p = .ok g ∧ g.place = .ok q.1 ∧ d.node? q.1 = some q.2 := by
  obtain ⟨g, hg, hf⟩ := Action.except_bind_eq_ok.1 h
  obtain ⟨place, hp, hf⟩ := Action.except_bind_eq_ok.1 hf
  refine ⟨g, hg, ?_⟩
  split at hf <;> cases hf
  · exact ⟨hp, ‹_›⟩
  · exact ⟨hp, ‹_›⟩

/-! ## A path and the one beside it -/

theorem goalIn_bind_place {last : String} (hl : p.pieces.getLast? = some last) :
    (d.goalIn p place >>= Goal.place) = d.step place last := by
  unfold goalIn step
  rw [hl]
  cases d.enter place with
  | error e => rfl
  | ok u =>
    simp only [bind, Except.bind]
    split_ifs <;> rfl

theorem foldlM_step_concat {lead : List String} {last : String} {q : Place} :
    (lead ++ [last]).foldlM d.step place = .ok q ↔
      ∃ parent, lead.foldlM d.step place = .ok parent ∧ d.step parent last = .ok q := by
  rw [List.foldlM_append, Action.except_bind_eq_ok]
  simp

theorem goalIn_place_eq_ok : (∃ parent, p.pieces.dropLast.foldlM d.step (start p) = .ok parent ∧
      (d.goalIn p parent >>= Goal.place) = .ok place) ↔
    p.pieces.foldlM d.step (start p) = .ok place := by
  rcases List.eq_nil_or_concat p.pieces with hp | ⟨lead, last, hp⟩
  · simp [goalIn, hp, Goal.place, bind, Except.bind, pure, Except.pure]
  · have hl : p.pieces.getLast? = some last := by simp [hp]
    simp only [goalIn_bind_place hl]
    rw [hp, List.concat_eq_append, List.dropLast_concat, foldlM_step_concat]

/-- A path leads where its pieces lead one after the other. -/
theorem locate_eq_ok : d.locate p = .ok place ↔
    '\x00' ∉ p.text.toList ∧ ¬ p.isEmpty = true ∧ ¬ (Utf8.bytes p.text).length ≥ pathLimit ∧
      p.pieces.foldlM d.step (start p) = .ok place := by
  rw [locate, Action.except_bind_eq_ok, ← goalIn_place_eq_ok]
  constructor
  · rintro ⟨g, hg, hpl⟩
    obtain ⟨h1, h2, h3, parent, hf, hg⟩ := goal_eq_ok.1 hg
    exact ⟨h1, h2, h3, parent, hf, Action.except_bind_eq_ok.2 ⟨g, hg, hpl⟩⟩
  · rintro ⟨h1, h2, h3, parent, hf, hg⟩
    obtain ⟨g, hg, hpl⟩ := Action.except_bind_eq_ok.1 hg
    exact ⟨g, goal_eq_ok.2 ⟨h1, h2, h3, parent, hf, hg⟩, hpl⟩

theorem step_of_directory (h : d.node? place = some .directory) (piece : String) :
    d.step place piece = if piece = "." then .ok place
      else if piece = ".." then .ok place.above else entry place piece := by
  rw [step, enter_eq_ok.2 h]
  rfl

/-- A step leads from a directory: nowhere else, up, or down to a name. -/
theorem step_eq_ok {piece : String} {q : Place} (h : d.step place piece = .ok q) :
    d.node? place = some .directory ∧ (piece = "." ∧ q = place ∨ piece = ".." ∧ q = place.above ∨
      piece ≠ "." ∧ piece ≠ ".." ∧ q = piece :: place) := by
  obtain ⟨u, he, -⟩ := Action.except_bind_eq_ok.1 h
  have hd := enter_eq_ok.1 he
  refine ⟨hd, ?_⟩
  rw [step_of_directory hd] at h
  split at h
  · cases h
    exact .inl ⟨‹_›, rfl⟩
  · split at h
    · cases h
      exact .inr (.inl ⟨‹_›, rfl⟩)
    · unfold entry at h
      split at h
      · cases h
      · cases h
        exact .inr (.inr ⟨‹_›, ‹_›, rfl⟩)

theorem above_ne_cons {name : String} (h : name ≠ "..") (place : Place) :
    place.above ≠ name :: place := by
  intro heq
  unfold Place.above at heq
  split at heq
  · exact h (List.cons.inj heq).1.symm
  · simp at heq
  · exact h (List.cons.inj heq).1.symm
  · have hlen := congrArg List.length heq
    simp at hlen
    omega

theorem eq_cons_of_step {piece : String} {q : Place} (h : d.step place piece = .ok q)
    (hlen : 2 < piece.length) : q = piece :: place := by
  obtain ⟨-, ⟨rfl, -⟩ | ⟨rfl, -⟩ | ⟨-, -, heq⟩⟩ := step_eq_ok h
  · exact absurd hlen (by decide)
  · exact absurd hlen (by decide)
  · exact heq

theorem ne_cons_of_step {piece name : String} {q : Place} (h : d.step place piece = .ok q)
    (hne : piece ≠ name) (hdots : name ≠ "..") : q ≠ name :: place := by
  obtain ⟨-, ⟨-, rfl⟩ | ⟨-, rfl⟩ | ⟨-, -, rfl⟩⟩ := step_eq_ok h
  · exact (List.cons_ne_self _ _).symm
  · exact above_ne_cons hdots _
  · exact fun heq => hne (List.cons.inj heq).1

/-- The file that is written beside a path is never the one at the path. -/
theorem locate_extend_ne {suffix : String} {q : Place} (hs : '/' ∉ suffix.toList)
    (hlen : 2 < suffix.length) (h : d.locate p = .ok place)
    (h' : d.locate (p.extend suffix) = .ok q) : place ≠ q := by
  obtain ⟨-, -, -, hp⟩ := locate_eq_ok.1 h
  obtain ⟨-, -, -, hq⟩ := locate_eq_ok.1 h'
  obtain ⟨lead, last, hl, hle⟩ := Path.pieces_extend hs (by rintro rfl; simp at hlen) p
  have hstart : start (p.extend suffix) = start p := by rw [start, start, Path.isAbsolute_extend hs]
  have hlong : 2 < (last ++ suffix).length := by rw [String.length_append]; omega
  rw [hle, hstart, foldlM_step_concat] at hq
  obtain ⟨parent, hparent, hq⟩ := hq
  -- The longer name leads down from the directory in which the path ends.
  rw [eq_cons_of_step hq hlong]
  rw [hl] at hp
  split at hp
  · rw [List.append_nil] at hp
    cases hparent.symm.trans hp
    exact (List.cons_ne_self _ _).symm
  · obtain ⟨parent', hparent', hp⟩ := foldlM_step_concat.1 hp
    cases hparent.symm.trans hparent'
    have hdots : last ++ suffix ≠ ".." := fun heq => by
      rw [heq] at hlong
      exact absurd hlong (by decide)
    refine ne_cons_of_step hp (fun heq => ?_) hdots
    have hsame := congrArg String.length heq
    rw [String.length_append] at hsame
    omega

theorem contentAt?_put_beside {suffix : String} (hs : '/' ∉ suffix.toList) (hlen : 2 < suffix.length)
    (h : d.EndsAt (p.extend suffix) place) (hd : d.node? place ≠ some .directory)
    (hn : node ≠ .directory) : (d.put place node).contentAt? p = d.contentAt? p := by
  have hsame := SameDirectories.put hd hn
  cases hg : d.goal p with
  | ok g =>
    refine contentAt?_congr (find_congr hg (goal_congr hsame hg) fun q hq => ?_)
    have hne : q ≠ place :=
      locate_extend_ne hs hlen (Action.except_bind_eq_ok.2 ⟨g, hg, hq⟩) h.locate
    simp [put, hne]
  | error e =>
    cases hg' : (d.put place node).goal p with
    | ok g => cases hg.symm.trans (goal_congr hsame.symm hg')
    | error e' => simp [contentAt?, find, hg, hg', bind, Except.bind]

end VaultAgent.Disk
