import VaultAgent.Proofs.Json.Grammar
import VaultAgent.Proofs.Json.Text

/-!
# What is printed is read back

`WellFormed` values are those whose strings, keys and numbers have their form. `pretty` and `compact`
write each of them as a text of the grammar, so the parser gives it back (`ofBytes?_pretty`,
`ofBytes?_compact`). What `compact` writes has no controls, so it is one line.
-/

namespace VaultAgent.Json

inductive WellFormed : Json → Prop
  | null : WellFormed null
  | bool (b : Bool) : WellFormed (bool b)
  | number {text : List UInt8} (h : IsNumber text) : WellFormed (number text)
  | string {body : List UInt8} (h : IsBody body) : WellFormed (string body)
  | array {js : List Json} (h : ∀ j ∈ js, WellFormed j) : WellFormed (array js)
  | object {ms : List (List UInt8 × Json)} (hk : ∀ m ∈ ms, IsBody m.1)
    (h : ∀ m ∈ ms, WellFormed m.2) : WellFormed (object ms)

theorem isBody_escape (s : String) : IsBody (escape s) :=
  scan_escape s

theorem WellFormed.ofText (s : String) : WellFormed (ofText s) :=
  .string (isBody_escape s)

/-- Reading a list of written items one by one gives the items. -/
theorem mapM_map_eq_some {α β : Type} (write : α → β) (read : β → Option α)
    (h : ∀ a, read (write a) = some a) (as : List α) : (as.map write).mapM read = some as := by
  induction as with
  | nil => rfl
  | cons a as ih => simp [h, ih]

theorem keys?_escape (fields : List (String × Json)) :
    keys? (fields.map fun f => (escape f.1, f.2)) = some fields :=
  mapM_map_eq_some _ _ (fun f => by simp) fields

theorem WellFormed.ofFields (fields : List (String × Json)) (h : ∀ f ∈ fields, WellFormed f.2) :
    WellFormed (Json.object (fields.map fun f => (escape f.1, f.2))) := by
  refine .object (fun m hm => ?_) (fun m hm => ?_)
  all_goals obtain ⟨f, hf, rfl⟩ := List.mem_map.1 hm
  · exact isBody_escape f.1
  · exact h f hf

theorem blanks_newLine (depth : Nat) : Blanks (newLine depth) := by
  intro b hb
  rcases List.mem_cons.1 hb with rfl | hb
  · decide
  · rw [(List.mem_replicate.1 hb).2]; decide

theorem Blanks.blank : Blanks [32] := by
  intro b hb; rw [List.mem_singleton.1 hb]; decide

mutual

theorem written_prettyAt (depth : Nat) : ∀ j : Json, WellFormed j → Written j (prettyAt depth j)
  | null, _ => .null
  | bool true, _ => .bool true
  | bool false, _ => .bool false
  | number _, .number h => .number h
  | string _, .string h => .string h
  | array [], _ => .emptyArray .nil
  | array (j :: js), .array h => by
    have hi := writtenItems_pretty (depth + 1) (j :: js) (by simp) h (blanks_newLine depth)
    rw [prettyAt, List.append_assoc]
    · exact .array hi
    · simp
  | object [], _ => .emptyObject .nil
  | object (m :: ms), .object hk h => by
    have hm := writtenMembers_pretty (depth + 1) (m :: ms) (by simp) hk h (blanks_newLine depth)
    rw [prettyAt, List.append_assoc]
    · exact .object hm
    · simp

theorem writtenItems_pretty (depth : Nat) : ∀ js : List Json, js ≠ [] → (∀ j ∈ js, WellFormed j) →
    ∀ {ws : List UInt8}, Blanks ws →
      WrittenItems js (prettyItems depth js ++ (ws ++ [closeArray]))
  | [j], _, h, ws, hw => by
    rw [prettyItems]
    exact .last (blanks_newLine depth) (written_prettyAt depth j (h j List.mem_cons_self)) hw
  | j :: j' :: js, _, h, ws, hw => by
    have hj := written_prettyAt depth j (h j List.mem_cons_self)
    have hi := writtenItems_pretty depth (j' :: js) (by simp)
      (fun j hj => h j (List.mem_cons_of_mem _ hj)) hw
    rw [prettyItems]
    · simpa using WrittenItems.more (blanks_newLine depth) hj .nil hi
    · simp

theorem writtenMembers_pretty (depth : Nat) : ∀ ms : List (List UInt8 × Json), ms ≠ [] →
    (∀ m ∈ ms, IsBody m.1) → (∀ m ∈ ms, WellFormed m.2) → ∀ {ws : List UInt8}, Blanks ws →
      WrittenMembers ms (prettyMembers depth ms ++ (ws ++ [closeObject]))
  | [(key, j)], _, hk, h, ws, hw => by
    have hj := written_prettyAt depth j (h _ List.mem_cons_self)
    rw [prettyMembers]
    simpa using WrittenMembers.last (blanks_newLine depth) (hk _ List.mem_cons_self) .nil .blank
      hj hw
  | (key, j) :: m :: ms, _, hk, h, ws, hw => by
    have hj := written_prettyAt depth j (h _ List.mem_cons_self)
    have hm := writtenMembers_pretty depth (m :: ms) (by simp)
      (fun m hm => hk m (List.mem_cons_of_mem _ hm)) (fun m hm => h m (List.mem_cons_of_mem _ hm)) hw
    rw [prettyMembers]
    · simpa using WrittenMembers.more (blanks_newLine depth) (hk _ List.mem_cons_self) .nil .blank
        hj .nil hm
    · simp

end

/-- A document that is printed is read back as the same value. -/
theorem ofBytes?_pretty {j : Json} (h : WellFormed j) : ofBytes? (pretty j) = some j := by
  simpa [pretty] using ofBytes?_of_written .nil (written_prettyAt 0 j h) .nil

/-! ## On one line -/

mutual

theorem written_compact : ∀ j : Json, WellFormed j → Written j (compact j)
  | null, _ => .null
  | bool true, _ => .bool true
  | bool false, _ => .bool false
  | number _, .number h => .number h
  | string _, .string h => .string h
  | array [], _ => .emptyArray .nil
  | array (j :: js), .array h => .array (writtenItems_compact (j :: js) (by simp) h)
  | object [], _ => .emptyObject .nil
  | object (m :: ms), .object hk h => .object (writtenMembers_compact (m :: ms) (by simp) hk h)

theorem writtenItems_compact : ∀ js : List Json, js ≠ [] → (∀ j ∈ js, WellFormed j) →
    WrittenItems js (compactItems js ++ [closeArray])
  | [j], _, h => .last .nil (written_compact j (h j List.mem_cons_self)) .nil
  | j :: j' :: js, _, h => by
    have hj := written_compact j (h j List.mem_cons_self)
    have hi := writtenItems_compact (j' :: js) (by simp) fun j hj => h j (List.mem_cons_of_mem _ hj)
    rw [compactItems]
    · simpa using WrittenItems.more .nil hj .nil hi
    · simp

theorem writtenMembers_compact : ∀ ms : List (List UInt8 × Json), ms ≠ [] →
    (∀ m ∈ ms, IsBody m.1) → (∀ m ∈ ms, WellFormed m.2) →
      WrittenMembers ms (compactMembers ms ++ [closeObject])
  | [(key, j)], _, hk, h => by
    have hj := written_compact j (h _ List.mem_cons_self)
    rw [compactMembers]
    simpa using WrittenMembers.last .nil (hk _ List.mem_cons_self) .nil .nil hj .nil
  | (key, j) :: m :: ms, _, hk, h => by
    have hj := written_compact j (h _ List.mem_cons_self)
    have hm := writtenMembers_compact (m :: ms) (by simp)
      (fun m hm => hk m (List.mem_cons_of_mem _ hm)) (fun m hm => h m (List.mem_cons_of_mem _ hm))
    rw [compactMembers]
    · simpa using WrittenMembers.more .nil (hk _ List.mem_cons_self) .nil .nil hj .nil hm
    · simp

end

theorem ofBytes?_compact {j : Json} (h : WellFormed j) : ofBytes? (compact j) = some j := by
  simpa using ofBytes?_of_written .nil (written_compact j h) .nil

theorem IsBody.not_control {body : List UInt8} (h : IsBody body) : ∀ b ∈ quoted body, ¬ b < 0x20 := by
  have hquote : ¬ quote < 0x20 := by decide
  have hbody := not_control_of_scan (h [])
  exact List.forall_mem_cons.2
    ⟨hquote, List.forall_mem_append.2 ⟨hbody, List.forall_mem_singleton.2 hquote⟩⟩

theorem not_control_of_all {bytes : List UInt8} (h : bytes.all (fun b => !decide (b < 0x20)) = true) :
    ∀ b ∈ bytes, ¬ b < 0x20 := by
  simpa using h

mutual

theorem not_control_compact : ∀ j : Json, WellFormed j → ∀ b ∈ compact j, ¬ b < 0x20
  | null, _ => not_control_of_all (by decide)
  | bool true, _ => not_control_of_all (by decide)
  | bool false, _ => not_control_of_all (by decide)
  | number _, .number h => h.not_control
  | string _, .string h => h.not_control
  | array js, .array h => List.forall_mem_cons.2 ⟨by decide, List.forall_mem_append.2
      ⟨not_control_compactItems js h, not_control_of_all (by decide)⟩⟩
  | object ms, .object hk h => List.forall_mem_cons.2 ⟨by decide, List.forall_mem_append.2
      ⟨not_control_compactMembers ms hk h, not_control_of_all (by decide)⟩⟩

theorem not_control_compactItems : ∀ js : List Json, (∀ j ∈ js, WellFormed j) →
    ∀ b ∈ compactItems js, ¬ b < 0x20
  | [], _ => nofun
  | [j], h => not_control_compact j (h j List.mem_cons_self)
  | j :: j' :: js, h => by
    obtain ⟨hj, hjs⟩ := List.forall_mem_cons.1 h
    rw [compactItems]
    · exact List.forall_mem_append.2 ⟨not_control_compact j hj,
        List.forall_mem_cons.2 ⟨by decide, not_control_compactItems (j' :: js) hjs⟩⟩
    · simp

theorem not_control_compactMembers : ∀ ms : List (List UInt8 × Json), (∀ m ∈ ms, IsBody m.1) →
    (∀ m ∈ ms, WellFormed m.2) → ∀ b ∈ compactMembers ms, ¬ b < 0x20
  | [], _, _ => nofun
  | [(key, j)], hk, h => by
    obtain ⟨hkey, -⟩ := List.forall_mem_cons.1 hk
    obtain ⟨hj, -⟩ := List.forall_mem_cons.1 h
    rw [compactMembers]
    exact List.forall_mem_append.2 ⟨hkey.not_control,
      List.forall_mem_cons.2 ⟨by decide, not_control_compact j hj⟩⟩
  | (key, j) :: m :: ms, hk, h => by
    obtain ⟨hkey, hks⟩ := List.forall_mem_cons.1 hk
    obtain ⟨hj, hjs⟩ := List.forall_mem_cons.1 h
    have hmore := not_control_compactMembers (m :: ms) hks hjs
    rw [compactMembers]
    · simp only [List.forall_mem_append, List.forall_mem_cons]
      exact ⟨⟨hkey.not_control, by decide, not_control_compact j hj⟩, by decide, hmore⟩
    · simp

end

end VaultAgent.Json
