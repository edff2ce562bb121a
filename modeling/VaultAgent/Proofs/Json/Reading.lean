import VaultAgent.Proofs.Json.Grammar
import VaultAgent.Proofs.Json.Text

/-!
# What is read is written

The parser takes nothing for a value but a text of it (`Sound`), so a document is read as a value if, and
only if, it is a text of this value with blanks around it (`ofBytes?_eq_some`).
-/

namespace VaultAgent.Json

variable {bytes rest beginning : List UInt8} {b : UInt8} {j : Json} {js : List Json}
  {ms : List (List UInt8 × Json)} {turns : Nat}

/-! ## Parts of a value -/

theorem blanks_takeWhile (bytes : List UInt8) : Blanks (bytes.takeWhile isSpace) :=
  fun _ hb => List.mem_takeWhile_imp hb

theorem takeWhile_append_skipSpace (bytes : List UInt8) :
    bytes.takeWhile isSpace ++ skipSpace bytes = bytes :=
  List.takeWhile_append_dropWhile

theorem expect_eq_some : expect beginning bytes = some rest ↔ bytes = beginning ++ rest := by
  constructor
  · intro h
    rw [expect] at h
    split at h
    · rename_i hpre
      obtain ⟨more, rfl⟩ := List.isPrefixOf_iff_prefix.1 hpre
      cases h
      rw [List.drop_left]
    · cases h
  · rintro rfl
    exact expect_append beginning rest

theorem expect_map_eq_some {literal : Json}
    (h : (expect beginning bytes).map (literal, ·) = some (j, rest)) :
    literal = j ∧ bytes = beginning ++ rest := by
  obtain ⟨rest', hexpect, h⟩ := Option.map_eq_some_iff.1 h
  cases h
  exact ⟨rfl, expect_eq_some.1 hexpect⟩

theorem expectByte_split (h : expectByte b bytes = some rest) :
    ∃ ws, Blanks ws ∧ bytes = ws ++ b :: rest := by
  refine ⟨bytes.takeWhile isSpace, blanks_takeWhile bytes, ?_⟩
  conv_lhs => rw [← takeWhile_append_skipSpace bytes, expect_eq_some.1 h]
  rfl

/-! ## Values -/

/-- What is read in so many turns is written so. -/
structure Sound (turns : Nat) : Prop where
  value : ∀ bytes j rest, Json.value turns bytes = some (j, rest) →
    ∃ ws text, Blanks ws ∧ Written j text ∧ bytes = ws ++ text ++ rest
  items : ∀ bytes js rest, Json.items turns bytes = some (js, rest) →
    ∃ text, WrittenItems js text ∧ bytes = text ++ rest
  members : ∀ bytes ms rest, Json.members turns bytes = some (ms, rest) →
    ∃ text, WrittenMembers ms text ∧ bytes = text ++ rest

/-- A value is read after blanks, and told by its first byte. -/
theorem written_of_value (ih : Sound turns) (h : value (turns + 1) bytes = some (j, rest)) :
    ∃ ws text, Blanks ws ∧ Written j text ∧ bytes = ws ++ text ++ rest := by
  have hskip := takeWhile_append_skipSpace bytes
  have hblanks := blanks_takeWhile bytes
  unfold value at h
  split at h
  · cases h
  rename_i b more hmore
  rw [hmore] at hskip
  -- It is enough to find the text behind the blanks.
  suffices htext : ∃ text, Written j text ∧ b :: more = text ++ rest by
    obtain ⟨text, hw, hsplit⟩ := htext
    exact ⟨_, text, hblanks, hw, by rw [List.append_assoc, ← hsplit, hskip]⟩
  split_ifs at h with hquote harray hobject hnull htrue hfalse
  · obtain ⟨⟨body, rest'⟩, hscan, h⟩ := Option.map_eq_some_iff.1 h
    cases h
    obtain ⟨rfl, hbody⟩ := scan_split hscan
    exact ⟨quoted body, .string hbody, by simp [hquote, quoted]⟩
  · split at h
    · rename_i rest' hclose
      cases h
      obtain ⟨ws, hws, rfl⟩ := expectByte_split hclose
      exact ⟨_, .emptyArray hws, by simp [harray]⟩
    · obtain ⟨⟨js, rest'⟩, hitems, h⟩ := Option.map_eq_some_iff.1 h
      cases h
      obtain ⟨text, hw, rfl⟩ := ih.items _ _ _ hitems
      exact ⟨_, .array hw, by simp [harray]⟩
  · split at h
    · rename_i rest' hclose
      cases h
      obtain ⟨ws, hws, rfl⟩ := expectByte_split hclose
      exact ⟨_, .emptyObject hws, by simp [hobject]⟩
    · obtain ⟨⟨ms, rest'⟩, hmembers, h⟩ := Option.map_eq_some_iff.1 h
      cases h
      obtain ⟨text, hw, rfl⟩ := ih.members _ _ _ hmembers
      exact ⟨_, .object hw, by simp [hobject]⟩
  · obtain ⟨rfl, hsplit⟩ := expect_map_eq_some h
    exact ⟨_, .null, by rw [hsplit, hnull]; rfl⟩
  · obtain ⟨rfl, hsplit⟩ := expect_map_eq_some h
    exact ⟨_, .bool true, by rw [hsplit, htrue]; rfl⟩
  · obtain ⟨rfl, hsplit⟩ := expect_map_eq_some h
    exact ⟨_, .bool false, by rw [hsplit, hfalse]; rfl⟩
  · obtain ⟨⟨text, rest'⟩, hnumber, h⟩ := Option.map_eq_some_iff.1 h
    cases h
    obtain ⟨hsplit, htext⟩ := numberText_split hnumber
    exact ⟨text, .number htext, hsplit⟩

theorem writtenItems_of_items (ih : Sound turns) (h : items (turns + 1) bytes = some (js, rest)) :
    ∃ text, WrittenItems js text ∧ bytes = text ++ rest := by
  rw [items] at h
  obtain ⟨⟨j, rest₁⟩, hvalue, hthen⟩ := Option.bind_eq_some_iff.1 h
  obtain ⟨ws, text, hws, hw, rfl⟩ := ih.value _ _ _ hvalue
  simp only at hthen
  split at hthen
  · rename_i rest₂ hcomma
    obtain ⟨⟨js, rest₃⟩, hitems, hlast⟩ := Option.bind_eq_some_iff.1 hthen
    cases hlast
    obtain ⟨ws', hws', rfl⟩ := expectByte_split hcomma
    obtain ⟨more, hmore, rfl⟩ := ih.items _ _ _ hitems
    exact ⟨_, .more hws hw hws' hmore, by simp⟩
  · obtain ⟨rest₂, hclose, hlast⟩ := Option.bind_eq_some_iff.1 hthen
    cases hlast
    obtain ⟨ws', hws', rfl⟩ := expectByte_split hclose
    exact ⟨_, .last hws hw hws', by simp⟩

theorem writtenMembers_of_members (ih : Sound turns)
    (h : members (turns + 1) bytes = some (ms, rest)) :
    ∃ text, WrittenMembers ms text ∧ bytes = text ++ rest := by
  rw [members] at h
  obtain ⟨rest₁, hopen, hscan⟩ := Option.bind_eq_some_iff.1 h
  obtain ⟨⟨key, rest₂⟩, hkey, hexpect⟩ := Option.bind_eq_some_iff.1 hscan
  obtain ⟨rest₃, hcolon, hread⟩ := Option.bind_eq_some_iff.1 hexpect
  obtain ⟨⟨j, rest₄⟩, hvalue, hthen⟩ := Option.bind_eq_some_iff.1 hread
  obtain ⟨ws, hws, rfl⟩ := expectByte_split hopen
  obtain ⟨rfl, hbody⟩ := scan_split hkey
  obtain ⟨wk, hwk, rfl⟩ := expectByte_split hcolon
  obtain ⟨wv, text, hwv, hw, rfl⟩ := ih.value _ _ _ hvalue
  simp only at hthen
  split at hthen
  · rename_i rest₅ hcomma
    obtain ⟨⟨ms, rest₆⟩, hmembers, hlast⟩ := Option.bind_eq_some_iff.1 hthen
    cases hlast
    obtain ⟨ws', hws', rfl⟩ := expectByte_split hcomma
    obtain ⟨more, hmore, rfl⟩ := ih.members _ _ _ hmembers
    exact ⟨_, .more hws hbody hwk hwv hw hws' hmore, by simp [quoted]⟩
  · obtain ⟨rest₅, hclose, hlast⟩ := Option.bind_eq_some_iff.1 hthen
    cases hlast
    obtain ⟨ws', hws', rfl⟩ := expectByte_split hclose
    exact ⟨_, .last hws hbody hwk hwv hw hws', by simp [quoted]⟩

theorem sound (turns : Nat) : Sound turns := by
  induction turns with
  | zero => exact ⟨nofun, nofun, nofun⟩
  | succ turns ih =>
    exact ⟨fun _ _ _ => written_of_value ih, fun _ _ _ => writtenItems_of_items ih,
      fun _ _ _ => writtenMembers_of_members ih⟩

/-! ## Documents -/

/-- The bytes are a text of the value, with blanks around it. -/
def IsDocument (bytes : List UInt8) (j : Json) : Prop :=
  ∃ ws text ws', Blanks ws ∧ Written j text ∧ Blanks ws' ∧ bytes = ws ++ text ++ ws'

theorem ofBytes?_eq_some : ofBytes? bytes = some j ↔ IsDocument bytes j := by
  constructor
  · intro h
    obtain ⟨⟨j', rest⟩, hvalue, h⟩ := Option.bind_eq_some_iff.1 h
    simp only at h
    split at h
    · rename_i hend
      cases h
      obtain ⟨ws, text, hws, hw, hsplit⟩ := (sound _).value _ _ _ hvalue
      have hrest := blanks_takeWhile rest
      have hskip := takeWhile_append_skipSpace rest
      rw [hend, List.append_nil] at hskip
      rw [hskip] at hrest
      exact ⟨ws, text, rest, hws, hw, hrest, hsplit⟩
    · cases h
  · rintro ⟨ws, text, ws', hws, hw, hws', rfl⟩
    exact ofBytes?_of_written hws hw hws'

/-- A document is a text of no more than one value. -/
theorem IsDocument.unique {j' : Json} (h : IsDocument bytes j) (h' : IsDocument bytes j') : j = j' :=
  Option.some.inj ((ofBytes?_eq_some.2 h).symm.trans (ofBytes?_eq_some.2 h'))

theorem IsDocument.ne_nil (h : IsDocument bytes j) : bytes ≠ [] := by
  obtain ⟨ws, text, ws', -, hw, -, rfl⟩ := h
  obtain ⟨b, more, rfl, -⟩ := hw.head
  simp

end VaultAgent.Json
