/-!
# Maps by name

Values under names, kept in ascending order of the names, so that a map has one form only. The view
is `find?`: each operation has a lemma that says what it does to it, and `NameMap.ext` says that
two maps with the same view are equal.
-/

namespace VaultAgent

structure NameMap (α : Type) where
  entries : List (String × α)
  sorted : entries.Pairwise (·.1 < ·.1)

namespace NameMap

variable {α : Type}

instance [Repr α] : Repr (NameMap α) where
  reprPrec m n := reprPrec m.entries n

instance [DecidableEq α] : DecidableEq (NameMap α) := fun m n =>
  if h : m.entries = n.entries then isTrue (by cases m; cases n; simp_all)
  else isFalse fun e => h (e ▸ rfl)

/-! ## Look-up in a list of entries -/

/-- The value under a name. -/
def lookUp (name : String) : List (String × α) → Option α
  | [] => none
  | (k, v) :: rest => if k = name then some v else lookUp name rest

theorem lookUp_eq_none {name : String} {es : List (String × α)} :
    lookUp name es = none ↔ ∀ e ∈ es, e.1 ≠ name := by
  induction es with
  | nil => simp [lookUp]
  | cons e es ih =>
    by_cases h : e.1 = name <;> simp [lookUp, h, ih]

theorem mem_of_lookUp {name : String} {v : α} {es : List (String × α)}
    (h : lookUp name es = some v) :
    (name, v) ∈ es := by
  induction es with
  | nil => simp [lookUp] at h
  | cons e es ih =>
    by_cases he : e.1 = name
    · simp only [lookUp, he, if_true, Option.some.injEq] at h
      subst he h; simp
    · simp only [lookUp, he, if_false] at h
      exact List.mem_cons_of_mem _ (ih h)

theorem lookUp_of_mem {name : String} {v : α} {es : List (String × α)}
    (hs : es.Pairwise (·.1 < ·.1)) (h : (name, v) ∈ es) : lookUp name es = some v := by
  induction es with
  | nil => simp at h
  | cons e es ih =>
    rcases List.mem_cons.1 h with rfl | h
    · simp [lookUp]
    · have hlt : e.1 < name := (List.pairwise_cons.1 hs).1 _ h
      have hne : e.1 ≠ name := fun he => String.lt_irrefl _ (he ▸ hlt)
      simp [lookUp, hne, ih (List.pairwise_cons.1 hs).2 h]

theorem lookUp_filter {p : String × α → Bool} {name : String} {es : List (String × α)}
    (hs : es.Pairwise (·.1 < ·.1)) :
    lookUp name (es.filter p) = (lookUp name es).filter fun v => p (name, v) := by
  refine Option.ext fun v => ?_
  rw [Option.filter_eq_some_iff]
  constructor
  · intro h
    have h := List.mem_filter.1 (mem_of_lookUp h)
    exact ⟨lookUp_of_mem hs h.1, h.2⟩
  · rintro ⟨h, hp⟩
    exact lookUp_of_mem (hs.filter _) (List.mem_filter.2 ⟨mem_of_lookUp h, hp⟩)

/-! ## The operations -/

def empty : NameMap α :=
  ⟨[], .nil⟩

/-- The value under a name. -/
def find? (m : NameMap α) (name : String) : Option α :=
  lookUp name m.entries

def contains (m : NameMap α) (name : String) : Bool :=
  (m.find? name).isSome

/-- How many names there are. -/
def size (m : NameMap α) : Nat :=
  m.entries.length

def isEmpty (m : NameMap α) : Bool :=
  m.entries.isEmpty

/-- The names and values in ascending order. -/
def toList (m : NameMap α) : List (String × α) :=
  m.entries

/-- The names in ascending order. -/
def names (m : NameMap α) : List String :=
  m.entries.map (·.1)

/-- Puts an entry at its place, instead of one with the same name. -/
def insertEntry (name : String) (v : α) : List (String × α) → List (String × α)
  | [] => [(name, v)]
  | (k, w) :: rest =>
    if name < k then (name, v) :: (k, w) :: rest
    else if name = k then (name, v) :: rest
    else (k, w) :: insertEntry name v rest

theorem mem_insertEntry {name : String} {v : α} {es : List (String × α)} {e : String × α}
    (h : e ∈ insertEntry name v es) : e = (name, v) ∨ e ∈ es := by
  induction es with
  | nil => simpa [insertEntry] using h
  | cons f es ih =>
    unfold insertEntry at h
    split at h
    · simpa using h
    · split at h
      · rcases List.mem_cons.1 h with h | h
        · exact .inl h
        · exact .inr (List.mem_cons_of_mem _ h)
      · rcases List.mem_cons.1 h with h | h
        · exact .inr (h ▸ List.mem_cons_self)
        · exact (ih h).imp_right (List.mem_cons_of_mem _)

theorem lt_of_not_lt_of_ne {a b : String} (h : ¬ a < b) (hne : a ≠ b) : b < a :=
  String.not_le.1 fun hab => hne (String.le_antisymm hab (String.not_lt.1 h))

theorem sorted_insertEntry {name : String} {v : α} {es : List (String × α)}
    (hs : es.Pairwise (·.1 < ·.1)) : (insertEntry name v es).Pairwise (·.1 < ·.1) := by
  induction es with
  | nil => simp [insertEntry]
  | cons e es ih =>
    obtain ⟨hlt, htail⟩ := List.pairwise_cons.1 hs
    unfold insertEntry
    split
    · rename_i h
      refine List.pairwise_cons.2 ⟨fun f hf => ?_, hs⟩
      rcases List.mem_cons.1 hf with rfl | hf
      · exact h
      · exact String.lt_trans h (hlt f hf)
    · split
      · rename_i h; subst h
        exact List.pairwise_cons.2 ⟨hlt, htail⟩
      · rename_i h hne
        refine List.pairwise_cons.2 ⟨fun f hf => ?_, ih htail⟩
        rcases mem_insertEntry hf with rfl | hf
        · exact lt_of_not_lt_of_ne h hne
        · exact hlt f hf

theorem lookUp_insertEntry {name other : String} {v : α} {es : List (String × α)} :
    lookUp other (insertEntry name v es) = if name = other then some v else lookUp other es := by
  induction es with
  | nil => simp [insertEntry, lookUp]
  | cons e es ih =>
    unfold insertEntry
    split
    · simp [lookUp]
    · split
      · rename_i h; subst h
        by_cases h : e.1 = other <;> simp [lookUp, h]
      · rename_i hne
        by_cases h : e.1 = other
        · have : name ≠ other := fun hn => hne (hn.trans h.symm)
          simp [lookUp, h, this]
        · simp [lookUp, h, ih]

/-- Puts a value under a name, instead of the one that is there. -/
def insert (m : NameMap α) (name : String) (v : α) : NameMap α :=
  ⟨insertEntry name v m.entries, sorted_insertEntry m.sorted⟩

/-- Keeps the entries that pass a test. -/
def filter (m : NameMap α) (p : String → α → Bool) : NameMap α :=
  ⟨m.entries.filter fun e => p e.1 e.2, m.sorted.filter _⟩

def erase (m : NameMap α) (name : String) : NameMap α :=
  m.filter fun k _ => k ≠ name

/-- Takes the entries of some names out, one after the other. Gives them and what is left. -/
def extract (m : NameMap α) : List String → List (String × α) × NameMap α
  | [] => ([], m)
  | name :: rest =>
    match m.find? name with
    | none => m.extract rest
    | some v => let (taken, left) := (m.erase name).extract rest; ((name, v) :: taken, left)

/-- Puts entries in one after the other; the last one of a name counts. -/
def insertAll (m : NameMap α) (entries : List (String × α)) : NameMap α :=
  entries.foldl (fun m e => m.insert e.1 e.2) m

def ofList (entries : List (String × α)) : NameMap α :=
  empty.insertAll entries

/-! ## The view -/

@[simp] theorem find?_empty (name : String) : (empty : NameMap α).find? name = none := rfl

theorem find?_insert (m : NameMap α) (name other : String) (v : α) :
    (m.insert name v).find? other = if name = other then some v else m.find? other :=
  lookUp_insertEntry

theorem find?_filter (m : NameMap α) (p : String → α → Bool) (name : String) :
    (m.filter p).find? name = (m.find? name).filter (p name) :=
  lookUp_filter m.sorted

theorem find?_erase (m : NameMap α) (name other : String) :
    (m.erase name).find? other = if name = other then none else m.find? other := by
  rw [erase, find?_filter]
  by_cases h : name = other
  · subst h; cases m.find? name <;> simp
  · cases m.find? other <;> simp [h, Ne.symm h]

theorem mem_toList {m : NameMap α} {name : String} {v : α} :
    (name, v) ∈ m.toList ↔ m.find? name = some v :=
  ⟨lookUp_of_mem m.sorted, mem_of_lookUp⟩

theorem mem_names {m : NameMap α} {name : String} : name ∈ m.names ↔ m.contains name = true := by
  rw [contains, Option.isSome_iff_ne_none, find?, Ne, lookUp_eq_none]
  simp [names]

/-- Two maps with the same value under every name are equal. -/
theorem ext {m n : NameMap α} (h : ∀ name, m.find? name = n.find? name) : m = n := by
  obtain ⟨es, hs⟩ := m
  obtain ⟨fs, ht⟩ := n
  have hmem : ∀ e, e ∈ es ↔ e ∈ fs := fun e =>
    ⟨fun he => mem_of_lookUp ((h e.1).symm.trans (lookUp_of_mem hs he)),
      fun he => mem_of_lookUp ((h e.1).trans (lookUp_of_mem ht he))⟩
  suffices es = fs by subst this; rfl
  clear h
  induction es generalizing fs with
  | nil => exact (List.eq_nil_iff_forall_not_mem.2 fun e he => by simpa using (hmem e).2 he).symm
  | cons e es ih =>
    cases fs with
    | nil => exact absurd ((hmem e).1 List.mem_cons_self) (by simp)
    | cons f fs =>
      obtain ⟨hlt, hes⟩ := List.pairwise_cons.1 hs
      obtain ⟨glt, hfs⟩ := List.pairwise_cons.1 ht
      have hef : e = f := by
        rcases List.mem_cons.1 ((hmem e).1 List.mem_cons_self) with h | he
        · exact h
        · rcases List.mem_cons.1 ((hmem f).2 List.mem_cons_self) with h | hf
          · exact h.symm
          · exact absurd (String.lt_trans (hlt f hf) (glt e he)) (String.lt_irrefl _)
      subst hef
      refine congrArg (e :: ·) (ih hes fs hfs fun d => ?_)
      constructor <;> intro hd
      · rcases List.mem_cons.1 ((hmem d).1 (List.mem_cons_of_mem _ hd)) with h | h
        · exact absurd (h ▸ hlt d hd) (String.lt_irrefl _)
        · exact h
      · rcases List.mem_cons.1 ((hmem d).2 (List.mem_cons_of_mem _ hd)) with h | h
        · exact absurd (h ▸ glt d hd) (String.lt_irrefl _)
        · exact h

end NameMap

end VaultAgent
