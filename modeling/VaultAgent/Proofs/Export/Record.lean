import VaultAgent.Export
import VaultAgent.Proofs.Json.Printer
import VaultAgent.Proofs.Vault.Responses

/-!
# What an exported record is

A record stands in a document with its groups nested in it: each gives its own fields and, as its last
one, the record of its parent (`IsRecord`). As in a response, fields are found by their names in any
order, or one after the other in an array. A document is read as the record that stands in it, if no
more records than `maxDepth` stand in each other (`ofBytes?_eq_some`). Every record has such a document
(`isText_compact`).
-/

namespace VaultAgent.Export

open Json (fields? keys? textField?)
open Rpc (lookup_eq_head? valuesOf valuesOf_filter)

variable {j : Json} {values : List Json} {fields known : List (String × Json)} {names : List String}
  {name s : String} {r r' : Record} {entries : List Entry} {depth : Nat} {document : List UInt8}

/-! ## Fields -/

/-- The value gives these fields: by their names, or in the order of the names if it is an array. -/
inductive GivesFields (names : List String) : Json → List (String × Json) → Prop
  | object {members : List (List UInt8 × Json)} {fields : List (String × Json)}
    (h : keys? members = some fields) : GivesFields names (.object members) fields
  | array {items : List Json} (h : items.length ≤ names.length) :
    GivesFields names (.array items) (names.zip items)

/-- The text that the values of a field give: that of the only one, or none if the field is missing. -/
inductive GivesText : List Json → String → Prop
  | missing : GivesText [] ""
  | text {j : Json} {s : String} (h : j.text? = some s) : GivesText [j] s

theorem GivesText.length_le (h : GivesText values s) : values.length ≤ 1 := by
  cases h <;> simp

theorem filter_zip (names : List String) (items : List Json) :
    (names.zip items).filter (·.1 ∈ names) = names.zip items :=
  List.filter_eq_self.2 fun _ he => decide_eq_true (List.of_mem_zip he).1

theorem map_fst_zip_sublist (names : List String) (items : List Json) :
    ((names.zip items).map (·.1)).Sublist names := by
  induction names generalizing items with
  | nil => exact .slnil
  | cons name names ih =>
    cases items with
    | nil => exact List.nil_sublist _
    | cons j items => exact (ih items).cons_cons name

theorem length_valuesOf_zip (hn : names.Nodup) (name : String) (items : List Json) :
    (valuesOf name (names.zip items)).length ≤ 1 := by
  rw [Rpc.length_valuesOf]
  exact List.nodup_iff_count_le_one.1 (hn.sublist (map_fst_zip_sublist names items)) name

/-- The fields of a record are read if none of them is there twice. -/
theorem fields?_eq_some (hn : names.Nodup) : fields? names j = some known ↔ ∃ fields,
    GivesFields names j fields ∧ (∀ name ∈ names, (valuesOf name fields).length ≤ 1) ∧
      fields.filter (·.1 ∈ names) = known := by
  constructor
  · intro h
    cases j with
    | object members =>
      obtain ⟨fields, hk, hlen, hknown⟩ := Rpc.fields?_object_eq_some.1 h
      exact ⟨fields, .object hk, hlen, hknown⟩
    | array items =>
      obtain ⟨hlen, hknown⟩ := Option.ite_none_right_eq_some.1 h
      cases hknown
      exact ⟨_, .array hlen, fun name _ => length_valuesOf_zip hn name items, filter_zip names items⟩
    | _ => cases h
  · rintro ⟨fields, hgives, hlen, hknown⟩
    cases hgives with
    | object hk => exact Rpc.fields?_object_eq_some.2 ⟨fields, hk, hlen, hknown⟩
    | @array items hitems =>
      rw [filter_zip] at hknown
      exact Option.ite_none_right_eq_some.2 ⟨hitems, congrArg some hknown⟩

theorem lookup_filter (hn : name ∈ names) (fields : List (String × Json)) :
    (fields.filter (·.1 ∈ names)).lookup name = (valuesOf name fields).head? := by
  rw [lookup_eq_head?, valuesOf_filter hn]

theorem textField?_iff (h : known.lookup name = values.head?) (hlen : values.length ≤ 1) :
    textField? known name = some s ↔ GivesText values s := by
  rw [textField?, h]
  match values, hlen with
  | [], _ =>
    constructor
    · rintro ⟨⟩
      exact .missing
    · rintro ⟨⟩
      rfl
  | [j], _ =>
    constructor
    · exact .text
    · rintro (_ | h)
      exact h

/-! ## Records -/

mutual

/-- The value says that this is the record. -/
inductive IsRecord : Json → Record → Prop
  | of {j : Json} {fields : List (String × Json)} {r : Record}
    (hfields : GivesFields fieldNames j fields)
    (hname : GivesText (valuesOf "Name" fields) r.name)
    (hfile : GivesText (valuesOf "FileId" fields) r.fileId)
    (hcap : GivesText (valuesOf "CapId" fields) r.capId)
    (htype : GivesText (valuesOf "SecretType" fields) r.secretType)
    (hdata : GivesText (valuesOf "PublicData" fields) r.publicData)
    (hgroup : IsChain (valuesOf "Group" fields) r.ancestors) : IsRecord j r

/-- The values of the last field say that these are the groups. -/
inductive IsChain : List Json → List Entry → Prop
  | missing : IsChain [] []
  | null : IsChain [.null] []
  | parent {j : Json} {r : Record} (h : IsRecord j r) : IsChain [j] (r.toEntry :: r.ancestors)

end

theorem IsChain.length_le (h : IsChain values entries) : values.length ≤ 1 := by
  cases h <;> simp

theorem not_isRecord_null : ¬ IsRecord .null r := by
  rintro ⟨hfields, -, -, -, -, -, -⟩
  cases hfields

/-- How the groups are read from the last field, with a reader for the record of the parent. -/
def chainOf? (parent? : Json → Option Record) : Option Json → Option (List Entry)
  | none | some .null => some []
  | some group => (parent? group).map fun parent => parent.toEntry :: parent.ancestors

theorem chainOf?_some {parent? : Json → Option Record} {group : Json} (h : group ≠ .null) :
    chainOf? parent? (some group) =
      (parent? group).map fun parent => parent.toEntry :: parent.ancestors := by
  cases group with
  | null => exact absurd rfl h
  | _ => rfl

/-- How the fields of a record itself are read. -/
def entryOf? (known : List (String × Json)) : Option Entry := do
  return {
    name := ← textField? known "Name"
    fileId := ← textField? known "FileId"
    capId := ← textField? known "CapId"
    secretType := ← textField? known "SecretType"
    publicData := ← textField? known "PublicData" }

theorem entryOf?_eq_some {e : Entry} : entryOf? known = some e ↔
    textField? known "Name" = some e.name ∧ textField? known "FileId" = some e.fileId ∧
      textField? known "CapId" = some e.capId ∧ textField? known "SecretType" = some e.secretType ∧
      textField? known "PublicData" = some e.publicData := by
  constructor
  · intro h
    obtain ⟨name, hname, h⟩ := Option.bind_eq_some_iff.1 h
    obtain ⟨fileId, hfile, h⟩ := Option.bind_eq_some_iff.1 h
    obtain ⟨capId, hcap, h⟩ := Option.bind_eq_some_iff.1 h
    obtain ⟨secretType, htype, h⟩ := Option.bind_eq_some_iff.1 h
    obtain ⟨publicData, hdata, h⟩ := Option.bind_eq_some_iff.1 h
    cases h
    exact ⟨hname, hfile, hcap, htype, hdata⟩
  · rintro ⟨hname, hfile, hcap, htype, hdata⟩
    simp only [entryOf?, hname, hfile, hcap, htype, hdata]
    rfl

/-- A record is read from its fields: those of its own, and the groups. -/
theorem ofJson?_succ_eq (depth : Nat) (j : Json) : Record.ofJson? (depth + 1) j = (do
    let known ← fields? fieldNames j
    let entry ← entryOf? known
    let entries ← chainOf? (Record.ofJson? depth) (known.lookup "Group")
    return ⟨entry, entries⟩) := by
  rw [Record.ofJson?]
  refine bind_congr fun known => ?_
  simp only [entryOf?, bind_assoc, pure_bind]
  refine bind_congr fun name => bind_congr fun fileId => bind_congr fun capId => ?_
  refine bind_congr fun secretType => bind_congr fun publicData => ?_
  cases known.lookup "Group" with
  | none => rfl
  | some group =>
    cases group with
    | null => rfl
    | _ =>
      simp only [chainOf?, Option.bind_eq_bind, Option.bind_map]
      rfl

theorem ofJson?_succ : Record.ofJson? (depth + 1) j = some r ↔ ∃ known,
    fields? fieldNames j = some known ∧ entryOf? known = some r.toEntry ∧
      chainOf? (Record.ofJson? depth) (known.lookup "Group") = some r.ancestors := by
  rw [ofJson?_succ_eq]
  simp only [Option.bind_eq_bind, Option.bind_eq_some_iff]
  refine exists_congr fun known => and_congr_right fun _ => ?_
  constructor
  · rintro ⟨entry, hentry, entries, hentries, h⟩
    cases h
    exact ⟨hentry, hentries⟩
  · rintro ⟨hentry, hentries⟩
    exact ⟨r.toEntry, hentry, r.ancestors, hentries, rfl⟩

theorem chainOf?_eq_some {parent? : Json → Option Record}
    (hparent : ∀ j r, parent? j = some r ↔ IsRecord j r ∧ r.ancestors.length < depth)
    (hlen : values.length ≤ 1) :
    chainOf? parent? values.head? = some entries ↔
      IsChain values entries ∧ entries.length < depth + 1 := by
  match values, hlen with
  | [], _ =>
    constructor
    · rintro ⟨⟩
      exact ⟨.missing, Nat.succ_pos _⟩
    · rintro ⟨⟨⟩, -⟩
      rfl
  | [j], _ =>
    by_cases hj : j = .null
    · subst hj
      constructor
      · rintro ⟨⟩
        exact ⟨.null, Nat.succ_pos _⟩
      · rintro ⟨_ | _ | h, -⟩
        · rfl
        · exact absurd h not_isRecord_null
    · rw [List.head?_cons, chainOf?_some hj, Option.map_eq_some_iff]
      constructor
      · rintro ⟨parent, h, rfl⟩
        obtain ⟨hrecord, hdepth⟩ := (hparent j parent).1 h
        exact ⟨.parent hrecord, Nat.succ_lt_succ hdepth⟩
      · rintro ⟨_ | _ | h, hdepth⟩
        · exact absurd rfl hj
        · exact ⟨_, (hparent j _).2 ⟨h, Nat.lt_of_succ_lt_succ hdepth⟩, rfl⟩

theorem nodup_fieldNames : fieldNames.Nodup := by
  decide

/-- A value is read as the record that it says, if that stands in fewer groups than may be read. -/
theorem ofJson?_eq_some :
    Record.ofJson? depth j = some r ↔ IsRecord j r ∧ r.ancestors.length < depth := by
  induction depth generalizing j r with
  | zero => exact ⟨nofun, fun h => absurd h.2 (Nat.not_lt_zero _)⟩
  | succ depth ih =>
    rw [ofJson?_succ]
    constructor
    · rintro ⟨known, hknown, hentry, hgroup⟩
      obtain ⟨hname, hfile, hcap, htype, hdata⟩ := entryOf?_eq_some.1 hentry
      obtain ⟨fields, hfields, hlen, rfl⟩ := (fields?_eq_some nodup_fieldNames).1 hknown
      have htext {name s : String} (hn : name ∈ fieldNames)
          (h : textField? (fields.filter (·.1 ∈ fieldNames)) name = some s) :
          GivesText (valuesOf name fields) s :=
        (textField?_iff (lookup_filter hn fields) (hlen name hn)).1 h
      rw [lookup_filter (by decide)] at hgroup
      obtain ⟨hchain, hdepth⟩ := (chainOf?_eq_some (fun j r => ih) (hlen "Group" (by decide))).1 hgroup
      exact ⟨.of hfields (htext (by decide) hname) (htext (by decide) hfile) (htext (by decide) hcap)
        (htext (by decide) htype) (htext (by decide) hdata) hchain, hdepth⟩
    · rintro ⟨⟨hfields, hname, hfile, hcap, htype, hdata, hgroup⟩, hdepth⟩
      rename_i fields
      have hlen : ∀ name ∈ fieldNames, (valuesOf name fields).length ≤ 1 := by
        simp only [fieldNames, List.forall_mem_cons]
        exact ⟨hname.length_le, hfile.length_le, hcap.length_le, htype.length_le, hdata.length_le,
          hgroup.length_le, List.forall_mem_nil _⟩
      have htext {name s : String} (hn : name ∈ fieldNames) (h : GivesText (valuesOf name fields) s) :
          textField? (fields.filter (·.1 ∈ fieldNames)) name = some s :=
        (textField?_iff (lookup_filter hn fields) (hlen name hn)).2 h
      refine ⟨_, (fields?_eq_some nodup_fieldNames).2 ⟨fields, hfields, hlen, rfl⟩,
        entryOf?_eq_some.2 ⟨htext (by decide) hname, htext (by decide) hfile, htext (by decide) hcap,
          htext (by decide) htype, htext (by decide) hdata⟩, ?_⟩
      rw [lookup_filter (by decide)]
      exact (chainOf?_eq_some (fun j r => ih) hgroup.length_le).2 ⟨hgroup, hdepth⟩

/-- A value says no more than one record. -/
theorem IsRecord.unique (h : IsRecord j r) (h' : IsRecord j r') : r = r' := by
  have hread {r : Record} (h : IsRecord j r) {depth : Nat} (hlt : r.ancestors.length < depth) :
      Record.ofJson? depth j = some r := ofJson?_eq_some.2 ⟨h, hlt⟩
  have hdepth : r.ancestors.length < r.ancestors.length + r'.ancestors.length + 1 := by omega
  have hdepth' : r'.ancestors.length < r.ancestors.length + r'.ancestors.length + 1 := by omega
  exact Option.some.inj ((hread h hdepth).symm.trans (hread h' hdepth'))

/-! ## Documents -/

/-- The bytes are a text of the record, with blanks wherever they may stand. -/
def IsText (document : List UInt8) (r : Record) : Prop :=
  ∃ j, Json.IsDocument document j ∧ IsRecord j r

theorem IsText.unique (h : IsText document r) (h' : IsText document r') : r = r' := by
  obtain ⟨j, hj, hr⟩ := h
  obtain ⟨j', hj', hr'⟩ := h'
  obtain rfl := hj.unique hj'
  exact hr.unique hr'

theorem ofBytes?_eq_some : Record.ofBytes? document = some r ↔
    IsText document r ∧ r.ancestors.length < Json.maxDepth := by
  rw [Record.ofBytes?, Option.bind_eq_bind, Option.bind_eq_some_iff]
  simp only [Json.ofBytes?_eq_some, ofJson?_eq_some]
  constructor
  · rintro ⟨j, hj, hr, hdepth⟩
    exact ⟨⟨j, hj, hr⟩, hdepth⟩
  · rintro ⟨⟨j, hj, hr⟩, hdepth⟩
    exact ⟨j, hj, hr, hdepth⟩

/-! ## Writing -/

/-- An entry with the value that stands for its groups. -/
def Entry.toJson (e : Entry) (group : Json) : Json :=
  .object ([("Name", .ofText e.name), ("FileId", .ofText e.fileId), ("CapId", .ofText e.capId),
    ("SecretType", .ofText e.secretType), ("PublicData", .ofText e.publicData),
    ("Group", group)].map fun f => (Json.escape f.1, f.2))

def chainJson : List Entry → Json
  | [] => .null
  | e :: rest => e.toJson (chainJson rest)

def Record.toJson (r : Record) : Json :=
  r.toEntry.toJson (chainJson r.ancestors)

theorem isRecord_toJson {e : Entry} {group : Json} (h : IsChain [group] entries) :
    IsRecord (e.toJson group) ⟨e, entries⟩ := by
  refine .of (.object (Json.keys?_escape _)) ?_ ?_ ?_ ?_ ?_ h
  all_goals exact .text (Json.text?_ofText _)

theorem isChain_chainJson (entries : List Entry) : IsChain [chainJson entries] entries := by
  induction entries with
  | nil => exact .null
  | cons e rest ih => exact .parent (isRecord_toJson ih)

theorem wellFormed_toJson {e : Entry} {group : Json} (h : group.WellFormed) :
    (e.toJson group).WellFormed := by
  refine .ofFields _ ?_
  simp [Json.WellFormed.ofText, h]

theorem wellFormed_chainJson (entries : List Entry) : (chainJson entries).WellFormed := by
  induction entries with
  | nil => exact .null
  | cons e rest ih => exact wellFormed_toJson ih

/-- Every record has a text, whatever its names and handles are and however many groups it stands in. -/
theorem isText_compact (r : Record) : IsText (Json.compact r.toJson) r := by
  have hread : Json.ofBytes? (Json.compact r.toJson) = some r.toJson :=
    Json.ofBytes?_compact (wellFormed_toJson (wellFormed_chainJson _))
  exact ⟨r.toJson, Json.ofBytes?_eq_some.1 hread, isRecord_toJson (isChain_chainJson _)⟩

end VaultAgent.Export
