import VaultAgent.Json.Printer
import VaultAgent.Proofs.Json.Number

/-!
# The grammar of JSON

`Written j bytes`: the bytes are a text of the value `j`, with blanks wherever they may stand between
its parts. The parser reads every such text back (`value_of_written`, `ofBytes?_of_written`), so a
printer is right as soon as what it prints is `Written`; `written_prettyAt` says so of `pretty`, for a
value whose strings and numbers have their form (`WellFormed`).
-/

namespace VaultAgent.Json

/-- Nothing but blanks. -/
def Blanks (bytes : List UInt8) : Prop :=
  ∀ b ∈ bytes, isSpace b = true

/-- What may stand between the quotes of a string. -/
def IsBody (body : List UInt8) : Prop :=
  ∀ rest, scan (body ++ quote :: rest) = some (body, rest)

mutual

inductive Written : Json → List UInt8 → Prop
  | null : Written null (ascii "null")
  | bool (b : Bool) : Written (bool b) (ascii (if b then "true" else "false"))
  | number {text : List UInt8} (h : IsNumber text) : Written (number text) text
  | string {body : List UInt8} (h : IsBody body) : Written (string body) (quoted body)
  | emptyArray {ws : List UInt8} (h : Blanks ws) :
    Written (array []) (openArray :: (ws ++ [closeArray]))
  | array {js : List Json} {bytes : List UInt8} (h : WrittenItems js bytes) :
    Written (array js) (openArray :: bytes)
  | emptyObject {ws : List UInt8} (h : Blanks ws) :
    Written (object []) (openObject :: (ws ++ [closeObject]))
  | object {ms : List (List UInt8 × Json)} {bytes : List UInt8} (h : WrittenMembers ms bytes) :
    Written (object ms) (openObject :: bytes)

/-- The items of an array with its closing bracket. -/
inductive WrittenItems : List Json → List UInt8 → Prop
  | last {j : Json} {ws bytes ws' : List UInt8} (hw : Blanks ws) (h : Written j bytes)
    (hw' : Blanks ws') : WrittenItems [j] (ws ++ bytes ++ (ws' ++ [closeArray]))
  | more {j : Json} {js : List Json} {ws bytes ws' more : List UInt8} (hw : Blanks ws)
    (h : Written j bytes) (hw' : Blanks ws') (hs : WrittenItems js more) :
    WrittenItems (j :: js) (ws ++ bytes ++ (ws' ++ comma :: more))

/-- The members of an object with its closing bracket. -/
inductive WrittenMembers : List (List UInt8 × Json) → List UInt8 → Prop
  | last {key : List UInt8} {j : Json} {ws wk wv bytes ws' : List UInt8} (hw : Blanks ws)
    (hk : IsBody key) (hwk : Blanks wk) (hwv : Blanks wv) (h : Written j bytes)
    (hw' : Blanks ws') :
    WrittenMembers [(key, j)]
      (ws ++ quoted key ++ (wk ++ colon :: (wv ++ bytes ++ (ws' ++ [closeObject]))))
  | more {key : List UInt8} {j : Json} {ms : List (List UInt8 × Json)}
    {ws wk wv bytes ws' more : List UInt8} (hw : Blanks ws) (hk : IsBody key) (hwk : Blanks wk)
    (hwv : Blanks wv) (h : Written j bytes) (hw' : Blanks ws') (hs : WrittenMembers ms more) :
    WrittenMembers ((key, j) :: ms)
      (ws ++ quoted key ++ (wk ++ colon :: (wv ++ bytes ++ (ws' ++ comma :: more))))

end

/-! ## Blanks -/

theorem Blanks.nil : Blanks [] := nofun

theorem skipSpace_append {ws : List UInt8} (hw : Blanks ws) (bytes : List UInt8) :
    skipSpace (ws ++ bytes) = skipSpace bytes :=
  List.dropWhile_append_of_pos hw

theorem skipSpace_cons {b : UInt8} (hb : isSpace b = false) (bytes : List UInt8) :
    skipSpace (b :: bytes) = b :: bytes := by
  simp [skipSpace, hb]

theorem expectByte_blanks {ws : List UInt8} (hw : Blanks ws) {b : UInt8} (hb : isSpace b = false)
    (bytes : List UInt8) : expectByte b (ws ++ b :: bytes) = some bytes := by
  simp [expectByte, expect, skipSpace_append hw, skipSpace_cons hb]

theorem expectByte_ne {ws : List UInt8} (hw : Blanks ws) {b c : UInt8} (hc : isSpace c = false)
    (hne : b ≠ c) (bytes : List UInt8) : expectByte b (ws ++ c :: bytes) = none := by
  simp [expectByte, expect, skipSpace_append hw, skipSpace_cons hc, hne]

/-! ## What follows a value -/

theorem Ends.blanks {ws rest : List UInt8} (hw : Blanks ws) (h : Ends rest) : Ends (ws ++ rest) := by
  cases ws with
  | nil => exact h
  | cons b ws =>
    refine .of_cons ?_
    have hb := hw b List.mem_cons_self
    simp only [isSpace, Bool.or_eq_true, decide_eq_true_eq] at hb
    rcases hb with ((rfl | rfl) | rfl) | rfl <;> decide

/-! ## Reading -/

/-- A text of a value begins with a byte of its own, which tells it from the end of what it may be
the first part of. -/
theorem Written.head {j : Json} {bytes : List UInt8} (h : Written j bytes) :
    ∃ b more, bytes = b :: more ∧ isSpace b = false ∧ b ≠ closeArray ∧ b ≠ closeObject := by
  cases h with
  | null => exact ⟨110, ascii "ull", rfl, by decide⟩
  | bool b =>
    cases b
    · exact ⟨102, ascii "alse", rfl, by decide⟩
    · exact ⟨116, ascii "rue", rfl, by decide⟩
  | number h =>
    obtain ⟨b, more, rfl, hb⟩ := h.head
    refine ⟨b, more, rfl, ?_⟩
    rcases hb with rfl | hb
    · decide
    · simp only [isDigit, Bool.and_eq_true, decide_eq_true_eq, UInt8.le_iff_toNat_le] at hb
      have hne : ∀ c : UInt8, c.toNat < 48 ∨ 57 < c.toNat → b ≠ c := by
        rintro c hc rfl; simp at hb; omega
      simp [isSpace, hne, closeArray, closeObject]
  | string h => exact ⟨quote, _, rfl, by decide⟩
  | emptyArray h => exact ⟨openArray, _, rfl, by decide⟩
  | array h => exact ⟨openArray, _, rfl, by decide⟩
  | emptyObject h => exact ⟨openObject, _, rfl, by decide⟩
  | object h => exact ⟨openObject, _, rfl, by decide⟩

theorem expectByte_closeArray_of_items {js : List Json} {bytes : List UInt8}
    (h : WrittenItems js bytes) (rest : List UInt8) :
    expectByte closeArray (bytes ++ rest) = none := by
  cases h with
  | last hw h hw' | more hw h hw' hs =>
    obtain ⟨b, more, rfl, hb, hne, -⟩ := h.head
    simp only [List.append_assoc, List.cons_append]
    exact expectByte_ne hw hb hne.symm _

theorem expectByte_closeObject_of_members {ms : List (List UInt8 × Json)} {bytes : List UInt8}
    (h : WrittenMembers ms bytes) (rest : List UInt8) :
    expectByte closeObject (bytes ++ rest) = none := by
  cases h with
  | last hw | more hw =>
    simp only [List.append_assoc, quoted, List.cons_append]
    exact expectByte_ne hw (by decide) (by decide) _

/-- A value is told by its first byte. -/
theorem value_cons {ws : List UInt8} {b : UInt8} (hw : Blanks ws) (hb : isSpace b = false)
    (turns : Nat) (rest : List UInt8) :
    value (turns + 1) (ws ++ b :: rest) =
      if b = quote then (scan rest).map fun (body, rest) => (string body, rest)
      else if b = openArray then
        match expectByte closeArray rest with
        | some rest => some (array [], rest)
        | none => (items turns rest).map fun (js, rest) => (array js, rest)
      else if b = openObject then
        match expectByte closeObject rest with
        | some rest => some (object [], rest)
        | none => (members turns rest).map fun (ms, rest) => (object ms, rest)
      else if b = 110 then (expect (ascii "ull") rest).map ((null, ·))
      else if b = 116 then (expect (ascii "rue") rest).map ((bool true, ·))
      else if b = 102 then (expect (ascii "alse") rest).map ((bool false, ·))
      else (numberText (b :: rest)).map fun (text, rest) => (number text, rest) := by
  have hs : skipSpace (ws ++ b :: rest) = b :: rest := by
    rw [skipSpace_append hw, skipSpace_cons hb]
  unfold value
  split
  · rename_i h; cases hs.symm.trans h
  · rename_i h; cases hs.symm.trans h; rfl

theorem expect_append (beginning rest : List UInt8) :
    expect beginning (beginning ++ rest) = some rest := by
  rw [expect, if_pos (List.isPrefixOf_iff_prefix.2 (List.prefix_append ..)), List.drop_left]

/-- No other value begins as a number does. -/
theorem value_number {ws text rest : List UInt8} (hw : Blanks ws) (h : IsNumber text)
    (hr : Ends rest) (turns : Nat) :
    value (turns + 1) (ws ++ (text ++ rest)) = some (number text, rest) := by
  obtain ⟨b, more, rfl, hb⟩ := h.head
  have hne : ∀ c : UInt8, c ≠ 45 → c.toNat < 48 ∨ 57 < c.toNat → b ≠ c := by
    rintro c hc hd rfl
    simp only [isDigit, Bool.and_eq_true, decide_eq_true_eq, UInt8.le_iff_toNat_le] at hb
    rcases hb with rfl | hb
    · exact hc rfl
    · simp at hb; omega
  have hs : isSpace b = false := by simp [isSpace, hne]
  have hn := numberText_append h hr
  rw [List.cons_append] at hn ⊢
  rw [value_cons hw hs, hn]
  simp [hne, quote, openArray, openObject]

-- Induction on how the text was written. Every step uses up a byte or more, so as many turns as there
-- are bytes are enough.
mutual

theorem value_of_written : ∀ {j : Json} {bytes : List UInt8}, Written j bytes →
    ∀ (turns : Nat) {ws rest : List UInt8}, Blanks ws → bytes.length ≤ turns → Ends rest →
      value turns (ws ++ (bytes ++ rest)) = some (j, rest)
  | _, _, h, 0, _, _, _, ht, _ => by
    obtain ⟨b, more, rfl, -⟩ := h.head
    simp at ht
  | _, _, .null, turns + 1, ws, rest, hw, ht, _ => by
    have he := expect_append (ascii "ull") rest
    have h := value_cons hw (by decide : isSpace 110 = false) turns (ascii "ull" ++ rest)
    rw [he] at h
    exact h
  | _, _, .bool true, turns + 1, ws, rest, hw, ht, _ => by
    have he := expect_append (ascii "rue") rest
    have h := value_cons hw (by decide : isSpace 116 = false) turns (ascii "rue" ++ rest)
    rw [he] at h
    exact h
  | _, _, .bool false, turns + 1, ws, rest, hw, ht, _ => by
    have he := expect_append (ascii "alse") rest
    have h := value_cons hw (by decide : isSpace 102 = false) turns (ascii "alse" ++ rest)
    rw [he] at h
    exact h
  | _, _, .number h, turns + 1, ws, rest, hw, ht, hr => value_number hw h hr turns
  | _, _, .string h, turns + 1, ws, rest, hw, ht, _ => by
    simp only [quoted, List.cons_append, List.append_assoc, List.nil_append]
    rw [value_cons hw (by decide), h rest]
    rfl
  | _, _, .emptyArray h, turns + 1, ws, rest, hw, ht, _ => by
    simp only [List.cons_append, List.append_assoc, List.nil_append]
    rw [value_cons hw (by decide), expectByte_blanks h (by decide)]
    rfl
  | _, _, .array h, turns + 1, ws, rest, hw, ht, _ => by
    -- what comes first is an item, so the array is not taken for an empty one
    have hi := items_of_written h turns rest (by simpa using ht)
    rw [List.cons_append, value_cons hw (by decide), expectByte_closeArray_of_items h, hi]
    rfl
  | _, _, .emptyObject h, turns + 1, ws, rest, hw, ht, _ => by
    simp only [List.cons_append, List.append_assoc, List.nil_append]
    rw [value_cons hw (by decide), expectByte_blanks h (by decide)]
    rfl
  | _, _, .object h, turns + 1, ws, rest, hw, ht, _ => by
    have hm := members_of_written h turns rest (by simpa using ht)
    rw [List.cons_append, value_cons hw (by decide), expectByte_closeObject_of_members h, hm]
    rfl

theorem items_of_written : ∀ {js : List Json} {bytes : List UInt8}, WrittenItems js bytes →
    ∀ (turns : Nat) (rest : List UInt8), bytes.length ≤ turns →
      items turns (bytes ++ rest) = some (js, rest)
  | _, _, .last hw h hw', turns, rest, ht => by
    cases turns with
    | zero => simp at ht
    | succ turns =>
      simp only [List.length_append, List.length_singleton] at ht
      have hv := value_of_written h turns hw (by omega)
        (.blanks hw' (.of_cons (by decide) : Ends (closeArray :: rest)))
      simp only [List.append_assoc, List.cons_append, List.nil_append]
      simp [items, hv, expectByte_ne hw' (by decide : isSpace closeArray = false)
        (by decide : comma ≠ closeArray),
        expectByte_blanks hw' (by decide : isSpace closeArray = false)]
  | _, _, .more hw h hw' hs, turns, rest, ht => by
    cases turns with
    | zero => simp at ht
    | succ turns =>
      rename_i more
      simp only [List.length_append, List.length_cons] at ht
      have hv := value_of_written h turns hw (by omega)
        (.blanks hw' (.of_cons (by decide) : Ends (comma :: (more ++ rest))))
      have hi := items_of_written hs turns rest (by omega)
      simp only [List.append_assoc, List.cons_append]
      simp [items, hv, hi, expectByte_blanks hw' (by decide : isSpace comma = false)]

theorem members_of_written : ∀ {ms : List (List UInt8 × Json)} {bytes : List UInt8},
    WrittenMembers ms bytes → ∀ (turns : Nat) (rest : List UInt8), bytes.length ≤ turns →
      members turns (bytes ++ rest) = some (ms, rest)
  | _, _, .last hw hk hwk hwv h hw', turns, rest, ht => by
    cases turns with
    | zero => simp at ht
    | succ turns =>
      simp only [List.length_append, List.length_cons, quoted] at ht
      have hv := value_of_written h turns hwv (by omega)
        (.blanks hw' (.of_cons (by decide) : Ends (closeObject :: rest)))
      simp only [List.append_assoc, List.cons_append, List.nil_append, quoted]
      simp [members, hv, hk _, expectByte_blanks hw (by decide : isSpace quote = false),
        expectByte_blanks hwk (by decide : isSpace colon = false),
        expectByte_ne hw' (by decide : isSpace closeObject = false)
          (by decide : comma ≠ closeObject),
        expectByte_blanks hw' (by decide : isSpace closeObject = false)]
  | _, _, .more hw hk hwk hwv h hw' hs, turns, rest, ht => by
    cases turns with
    | zero => simp at ht
    | succ turns =>
      rename_i more
      simp only [List.length_append, List.length_cons, quoted] at ht
      have hv := value_of_written h turns hwv (by omega)
        (.blanks hw' (.of_cons (by decide) : Ends (comma :: (more ++ rest))))
      have hm := members_of_written hs turns rest (by omega)
      simp only [List.append_assoc, List.cons_append, quoted]
      simp [members, hv, hm, hk _, expectByte_blanks hw (by decide : isSpace quote = false),
        expectByte_blanks hwk (by decide : isSpace colon = false),
        expectByte_blanks hw' (by decide : isSpace comma = false)]

end

/-- A document is one value with blanks around it. -/
theorem ofBytes?_of_written {j : Json} {ws bytes ws' : List UInt8} (hw : Blanks ws)
    (h : Written j bytes) (hw' : Blanks ws') : ofBytes? (ws ++ bytes ++ ws') = some j := by
  have he : Ends ws' := by simpa using Ends.blanks hw' (nofun : Ends [])
  have hs : skipSpace ws' = [] := by simpa [skipSpace] using skipSpace_append hw' []
  have hv := value_of_written h (2 * (ws ++ bytes ++ ws').length + 1) hw
    (by simp only [List.length_append]; omega) he
  rw [← List.append_assoc] at hv
  rw [ofBytes?, hv]
  simp [hs]

end VaultAgent.Json
