import VaultAgent.Proofs.Export.Curve
import VaultAgent.Proofs.Export.Record

/-!
# An exported record, kept as a secret

A record whose key is of a known kind becomes a secret that differs from it in two things: it has the
line of the key in place of the vault's encoding, and the name that was asked for if it has none of its
own. All groups are taken over in their order (`Keeps`). It makes no difference how the record is
written as JSON, or what blanks stand around the base64 (`secret_of_export`).
-/

namespace VaultAgent.Export

open VaultAgent.Action
open Ssh (Curve HasForm PublicKey)

variable {r : Record} {e : Entry} {m : Member} {s : Secret} {key : PublicKey} {cs ws ws' : List Char}
  {raw document : List UInt8} {text secretType encoded fallbackName : String} {cause : ImportError}
  {ms : List Member} {entries : List Entry}

/-! ## What is exported -/

/-- The bytes are the vault's encoding of a key for this type. -/
inductive Encodes (secretType : String) (raw : List UInt8) : PublicKey → Prop
  | point {curve : Curve} (ht : lower secretType ∈ ecdsaTypes) (h : HasForm curve raw) :
    Encodes secretType raw (.ecdsa curve raw)
  | ed25519 (ht : lower secretType ∈ ed25519Types) (h : raw.length = Ssh.Decoder.ed25519Length) :
    Encodes secretType raw (.ed25519 raw)

/-- The entry of a group. -/
def Entry.ofMember (m : Member) : Entry where
  name := m.name
  fileId := m.fileId
  capId := m.capId
  secretType := m.secretType
  publicData := Base64.text m.publicData

def IsBase64 (text : String) : Prop :=
  ∃ bytes, text = Base64.text bytes

/-- The text is the base64 of the document, with blanks around it. -/
def Wraps (encoded : String) (document : List UInt8) : Prop :=
  ∃ ws ws', (∀ c ∈ ws ++ ws', Blank.isBlank c = true) ∧
    encoded.toList = ws ++ (Base64.text document).toList ++ ws'

/-! ## What is kept -/

/-- The secret is the record, with the line of the key, and under the other name if it has none. -/
structure Keeps (r : Record) (fallbackName : String) (key : PublicKey) (s : Secret) : Prop where
  name : s.name = if r.name = "" then fallbackName else r.name
  fileId : s.fileId = r.fileId
  capId : s.capId = r.capId
  secretType : s.secretType = r.secretType
  publicData : s.publicData = Utf8.bytes key.line
  readable : PublicKey.ofLineBytes s.publicData = .ok key
  ancestors : r.ancestors = s.ancestors.map .ofMember

/-- This is what is wrong with the public data of the first group whose public data are not base64. -/
def FirstFault (entries : List Entry) (fault : Base64.DecodeError) : Prop :=
  ∃ before e rest, entries = before ++ e :: rest ∧ (∀ e' ∈ before, IsBase64 e'.publicData) ∧
    ¬ IsBase64 e.publicData ∧ Base64.ofText e.publicData = .error fault

/-! ## Keys -/

theorem publicKey_of_encodes (h : Encodes secretType raw key) :
    publicKey secretType raw = .ok key := by
  cases h with
  | point ht h => exact (publicKey_eq_ok_iff ht).2 ⟨_, h, rfl⟩
  | ed25519 ht h =>
    have hother : lower secretType ∉ ecdsaTypes := by
      intro ht'
      have hdisjoint : ∀ t ∈ ed25519Types, t ∉ ecdsaTypes := by decide
      exact hdisjoint _ ht ht'
    rw [publicKey, if_neg hother, if_pos ht, if_pos h]

/-! ## Base64 -/

theorem ofText_eq_ok : Base64.ofText text = .ok raw ↔ text = Base64.text raw := by
  constructor
  · intro h
    have hbytes : Utf8.bytes text = Utf8.bytes (Base64.text raw) := by
      rw [Base64.text, Utf8.bytes_ascii fun b => Base64.lt_of_mem_encode]
      exact (Base64.decode_eq_ok.1 h).symm
    have hstring := congrArg Utf8.string hbytes
    rw [Utf8.string_bytes, Utf8.string_bytes] at hstring
    exact Except.ok.inj hstring
  · rintro rfl
    exact Base64.ofText_text raw

theorem isBase64_iff : IsBase64 text ↔ ∃ bytes, Base64.ofText text = .ok bytes :=
  exists_congr fun _ => ofText_eq_ok.symm

/-- Blanks around a text without blanks are taken off. -/
theorem trim_between (hw : ∀ c ∈ ws ++ ws', Blank.isBlank c = true)
    (hcs : ∀ c ∈ cs, Blank.isBlank c = false) : Blank.trim (ws ++ cs ++ ws') = cs := by
  obtain ⟨hws, hws'⟩ := List.forall_mem_append.1 hw
  have hkeep (more : List Char) {cs : List Char} (hcs : ∀ c ∈ cs, Blank.isBlank c = false)
      (hne : cs ≠ []) : (cs ++ more).dropWhile Blank.isBlank = cs ++ more := by
    obtain ⟨c, cs, rfl⟩ := List.exists_cons_of_ne_nil hne
    exact List.dropWhile_cons_of_neg (by simp [hcs c List.mem_cons_self])
  rw [Blank.trim, Blank.trimStart, List.append_assoc, List.dropWhile_append_of_pos hws, Blank.trimEnd]
  by_cases hne : cs = []
  · subst hne
    rw [List.nil_append, List.dropWhile_eq_nil_iff.2 hws']
    rfl
  · have hreverse : ∀ c ∈ cs.reverse, Blank.isBlank c = false := fun c hc =>
      hcs c (List.mem_reverse.1 hc)
    have hdrop := hkeep [] hreverse (mt List.reverse_eq_nil_iff.1 hne)
    rw [List.append_nil] at hdrop
    rw [hkeep ws' hcs hne, List.reverse_append,
      List.dropWhile_append_of_pos fun c hc => hws' c (List.mem_reverse.1 hc), hdrop,
      List.reverse_reverse]

theorem decode_of_wraps (h : Wraps encoded document) :
    Base64.decode (Utf8.encode (Blank.trim encoded.toList)) = .ok document := by
  obtain ⟨ws, ws', hw, hencoded⟩ := h
  have htext : ∀ c ∈ (Base64.text document).toList, Blank.isBlank c = false := fun c hc =>
    Ssh.KeyLine.not_isBlank_of_isPartChar (Ssh.KeyLine.isPartChar_of_mem_text hc)
  rw [hencoded, trim_between hw htext]
  exact Base64.ofText_text document

/-! ## Groups -/

theorem toMember_eq_ok : e.toMember = .ok m ↔ e = .ofMember m := by
  constructor
  · intro h
    obtain ⟨publicData, hdata, h⟩ := except_bind_eq_ok.1 h
    cases h
    rw [Entry.ofMember, ← ofText_eq_ok.1 (mapError_eq_ok.1 hdata)]
  · rintro rfl
    rw [Entry.toMember, Entry.ofMember, decodeBase64, Base64.ofText_text]
    rfl

theorem toMember_eq_error : e.toMember = .error cause ↔
    ∃ fault, Base64.ofText e.publicData = .error fault ∧ cause = .encoding fault := by
  rw [Entry.toMember, decodeBase64]
  cases Base64.ofText e.publicData with
  | ok bytes => exact ⟨nofun, nofun⟩
  | error fault =>
    constructor
    · rintro ⟨⟩
      exact ⟨fault, rfl, rfl⟩
    · rintro ⟨fault, h, rfl⟩
      cases h
      rfl

theorem isBase64_of_toMember (h : e.toMember = .ok m) : IsBase64 e.publicData := by
  rw [toMember_eq_ok.1 h]
  exact ⟨m.publicData, rfl⟩

theorem exists_toMember (h : IsBase64 e.publicData) : ∃ m, e.toMember = .ok m := by
  cases hm : e.toMember with
  | ok m => exact ⟨m, rfl⟩
  | error cause =>
    obtain ⟨fault, hfault, -⟩ := toMember_eq_error.1 hm
    obtain ⟨bytes, hbytes⟩ := isBase64_iff.1 h
    cases hfault.symm.trans hbytes

theorem mapM_toMember_eq_ok :
    entries.mapM Entry.toMember = .ok ms ↔ entries = ms.map .ofMember := by
  rw [mapM_eq_ok_iff, ← List.forall₂_eq_eq_eq, List.forall₂_map_right_iff]
  simp only [toMember_eq_ok]

theorem exists_mapM_toMember (h : ∀ e ∈ entries, IsBase64 e.publicData) :
    ∃ ms, entries.mapM Entry.toMember = .ok ms :=
  exists_mapM_eq_ok fun e he => exists_toMember (h e he)

theorem exists_firstFault (h : ∃ e ∈ entries, ¬ IsBase64 e.publicData) :
    ∃ fault, FirstFault entries fault ∧ entries.mapM Entry.toMember = .error (.encoding fault) := by
  cases hms : entries.mapM Entry.toMember with
  | ok ms =>
    obtain ⟨e, he, hno⟩ := h
    obtain ⟨m, -, hm⟩ := (mem_of_mapM_eq_ok hms).1 e he
    exact absurd (isBase64_of_toMember hm) hno
  | error cause =>
    obtain ⟨before, e, rest, rfl, he, hbefore⟩ := mapM_eq_error_iff.1 hms
    obtain ⟨fault, hfault, rfl⟩ := toMember_eq_error.1 he
    refine ⟨fault, ⟨before, e, rest, rfl, fun e' he' => ?_, fun hbase => ?_, hfault⟩, rfl⟩
    · obtain ⟨m, hm⟩ := hbefore e' he'
      exact isBase64_of_toMember hm
    · obtain ⟨bytes, hbytes⟩ := isBase64_iff.1 hbase
      cases hfault.symm.trans hbytes

/-! ## The secret -/

theorem ofExport_of_wraps (h : Wraps encoded document) (fallbackName : String) :
    Secret.ofExport encoded fallbackName = match Record.ofBytes? document with
      | none => .error .json
      | some r => r.toSecret fallbackName := by
  rw [Secret.ofExport, decode_of_wraps h]
  rfl

theorem ofBytes?_of_isText (h : IsText document r) (hdepth : r.ancestors.length < Json.maxDepth) :
    Record.ofBytes? document = some r :=
  ofBytes?_eq_some.2 ⟨h, hdepth⟩

theorem ofBytes?_of_deep (h : IsText document r) (hdepth : Json.maxDepth ≤ r.ancestors.length) :
    Record.ofBytes? document = none := by
  refine Option.eq_none_iff_forall_ne_some.2 fun r' hr' => ?_
  obtain ⟨htext, hlt⟩ := ofBytes?_eq_some.1 hr'
  obtain rfl := h.unique htext
  omega

/-- With a key that is known, only the groups are left to be read. -/
theorem toSecret_eq (hdata : r.publicData = Base64.text raw) (hkey : Encodes r.secretType raw key)
    (fallbackName : String) : r.toSecret fallbackName = do
      let ancestors ← r.ancestors.mapM Entry.toMember
      return ⟨⟨if r.name = "" then fallbackName else r.name, r.fileId, r.capId, r.secretType,
        Utf8.bytes key.line⟩, ancestors⟩ := by
  rw [Record.toSecret, decodeBase64, hdata, Base64.ofText_text]
  dsimp only [Except.mapError, bind, Except.bind]
  rw [publicKey_of_encodes hkey]

theorem exists_toSecret (hdata : r.publicData = Base64.text raw)
    (hkey : Encodes r.secretType raw key) (h : ∀ e ∈ r.ancestors, IsBase64 e.publicData) :
    ∃ s, r.toSecret fallbackName = .ok s ∧ Keeps r fallbackName key s := by
  obtain ⟨ms, hms⟩ := exists_mapM_toMember h
  rw [toSecret_eq hdata hkey, hms]
  refine ⟨_, rfl, rfl, rfl, rfl, rfl, rfl, ?_, mapM_toMember_eq_ok.1 hms⟩
  exact ofLineBytes_of_publicKey (publicKey_of_encodes hkey)

theorem exists_fault_toSecret (hdata : r.publicData = Base64.text raw)
    (hkey : Encodes r.secretType raw key) (h : ∃ e ∈ r.ancestors, ¬ IsBase64 e.publicData) :
    ∃ fault, FirstFault r.ancestors fault ∧ r.toSecret fallbackName = .error (.encoding fault) := by
  obtain ⟨fault, hfirst, hms⟩ := exists_firstFault h
  refine ⟨fault, hfirst, ?_⟩
  rw [toSecret_eq hdata hkey, hms]
  rfl

/-- An exported record with a known key is kept as a secret, group by group, if the public data of all
groups are base64. If not, the first that are not are the fault; and a record in too many groups is not
read at all. -/
theorem secret_of_export (hdata : r.publicData = Base64.text raw)
    (hkey : Encodes r.secretType raw key) :
    IsText (Json.compact r.toJson) r ∧
    ∀ document encoded fallbackName, IsText document r → Wraps encoded document →
      (r.ancestors.length < Json.maxDepth →
        ((∀ e ∈ r.ancestors, IsBase64 e.publicData) →
          ∃ s, Secret.ofExport encoded fallbackName = .ok s ∧ Keeps r fallbackName key s) ∧
        ((∃ e ∈ r.ancestors, ¬ IsBase64 e.publicData) → ∃ fault, FirstFault r.ancestors fault ∧
          Secret.ofExport encoded fallbackName = .error (.encoding fault))) ∧
      (Json.maxDepth ≤ r.ancestors.length → Secret.ofExport encoded fallbackName = .error .json) := by
  refine ⟨isText_compact r, fun document encoded fallbackName htext hwraps =>
    ⟨fun hdepth => ?_, fun hdeep => ?_⟩⟩
  · rw [ofExport_of_wraps hwraps, ofBytes?_of_isText htext hdepth]
    exact ⟨exists_toSecret hdata hkey, exists_fault_toSecret hdata hkey⟩
  · rw [ofExport_of_wraps hwraps, ofBytes?_of_deep htext hdeep]

/-- A key without a name, in groups one of which has none either. -/
def nested (rootData : String) : Record where
  name := ""
  fileId := "a\\b"
  capId := "\"c\""
  secretType := "Ed25519"
  publicData := Base64.text (List.replicate 32 4)
  ancestors := [⟨"", "f", "c", "group", Base64.text [0, 255]⟩, ⟨"ro\not", "", "", "", rootData⟩]

/-- The record on a line of its own. -/
def exportLine (r : Record) : String :=
  String.ofList ([' '] ++ (Base64.text (Json.compact r.toJson)).toList ++ ['\n'])

theorem wraps_exportLine (r : Record) : Wraps (exportLine r) (Json.compact r.toJson) :=
  ⟨[' '], ['\n'], List.forall_mem_cons.2 ⟨rfl, List.forall_mem_singleton.2 rfl⟩,
    String.toList_ofList⟩

/-- The group that is spoiled is the last one. -/
theorem secret_of_export_of_nested :
    (nested "").publicData = Base64.text (List.replicate 32 4) ∧
      Encodes "Ed25519" (List.replicate 32 4) (.ed25519 (List.replicate 32 4)) ∧
      (∃ s, Secret.ofExport (exportLine (nested "")) "asked" = .ok s ∧
        Keeps (nested "") "asked" (.ed25519 (List.replicate 32 4)) s) ∧
      ∃ fault, FirstFault (nested "%%").ancestors fault ∧
        Secret.ofExport (exportLine (nested "%%")) "asked" = .error (.encoding fault) := by
  have hkey : Encodes "Ed25519" (List.replicate 32 4) (.ed25519 (List.replicate 32 4)) :=
    .ed25519 (by decide) rfl
  have hgood : ∀ e ∈ (nested "").ancestors, IsBase64 e.publicData := by
    exact List.forall_mem_cons.2 ⟨⟨[0, 255], rfl⟩, List.forall_mem_singleton.2 ⟨[], rfl⟩⟩
  have hbad : ¬ IsBase64 "%%" := by
    rw [isBase64_iff]
    rintro ⟨bytes, h⟩
    cases h
  obtain ⟨htext, hkept⟩ := secret_of_export (r := nested "") rfl hkey
  obtain ⟨htext', hspoiled⟩ := secret_of_export (r := nested "%%") rfl hkey
  refine ⟨rfl, hkey, ?_, ?_⟩
  · exact ((hkept _ _ "asked" htext (wraps_exportLine _)).1 (by decide)).1 hgood
  · refine ((hspoiled _ _ "asked" htext' (wraps_exportLine _)).1 (by decide)).2
      ⟨⟨"ro\not", "", "", "", "%%"⟩, ?_, hbad⟩
    exact List.mem_cons_of_mem _ List.mem_cons_self

end VaultAgent.Export
