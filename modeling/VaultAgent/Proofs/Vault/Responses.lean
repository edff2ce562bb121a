import VaultAgent.Proofs.Json.Reading
import VaultAgent.Vault.Rpc
import Mathlib.Data.List.Nodup

/-!
# What a response is

A response bears a number, and perhaps a result and an error (`IsResponse`). In an object each of them
stands under its name, no more than once and in any order, with whatever else there is; in an array they
stand one after the other. That is just what is read as a response (`ofJson?_iff`).
-/

namespace VaultAgent.Rpc

open Json (optionalTextField? keys? word?)

variable {j id : Json} {fields : List (String × Json)} {members : List (List UInt8 × Json)}
  {items values : List Json} {name : String} {t : Option String} {r : Response}

/-- The values that are given under a name. -/
def valuesOf (name : String) (fields : List (String × Json)) : List Json :=
  (fields.filter (·.1 = name)).map (·.2)

/-- The text that these values give, which may be missing or `null`. -/
inductive OptionalText : List Json → Option String → Prop
  | missing : OptionalText [] none
  | null : OptionalText [.null] none
  | text {j : Json} {s : String} (h : j.text? = some s) : OptionalText [j] (some s)

/-- The value says that this is the response. -/
inductive IsResponse : Json → Response → Prop
  | object {members : List (List UInt8 × Json)} {fields : List (String × Json)} {id : Json}
    {r : Response} (hk : keys? members = some fields) (hid : valuesOf "id" fields = [id])
    (hn : word? id = some r.number) (hr : OptionalText (valuesOf "result" fields) r.result?)
    (he : OptionalText (valuesOf "error" fields) r.error?) : IsResponse (.object members) r
  | array {id : Json} {rest : List Json} {r : Response} (hn : word? id = some r.number)
    (hr : OptionalText (rest.take 1) r.result?) (he : OptionalText (rest.drop 1) r.error?) :
    IsResponse (.array (id :: rest)) r

theorem OptionalText.length_le (h : OptionalText values t) : values.length ≤ 1 := by
  cases h <;> simp

/-! ## Fields -/

theorem lookup_eq_head? (name : String) (fields : List (String × Json)) :
    fields.lookup name = (valuesOf name fields).head? := by
  induction fields with
  | nil => rfl
  | cons f fields ih =>
    obtain ⟨other, j⟩ := f
    by_cases hf : other = name
    · subst hf
      rw [List.lookup_cons_self]
      simp [valuesOf]
    · rw [List.lookup_cons, beq_false_of_ne (Ne.symm hf)]
      simpa [valuesOf, hf] using ih

theorem length_valuesOf (name : String) (fields : List (String × Json)) :
    (valuesOf name fields).length = (fields.map (·.1)).count name := by
  rw [valuesOf, List.length_map, List.count, List.countP_map, List.countP_eq_length_filter]
  congr 2

/-- Fields of other names do not count. -/
theorem valuesOf_filter {names : List String} (h : name ∈ names)
    (fields : List (String × Json)) :
    valuesOf name (fields.filter (·.1 ∈ names)) = valuesOf name fields := by
  rw [valuesOf, valuesOf, List.filter_filter]
  congr 2
  funext f
  by_cases hf : f.1 = name <;> simp [hf, h]

/-- No field is there twice if none of the names is. -/
theorem nodup_filter_iff {names : List String} :
    ((fields.filter (·.1 ∈ names)).map (·.1)).Nodup ↔
      ∀ name ∈ names, (valuesOf name fields).length ≤ 1 := by
  rw [List.nodup_iff_count_le_one]
  simp only [← length_valuesOf]
  constructor
  · intro h name hn
    exact valuesOf_filter hn fields ▸ h name
  · intro h name
    by_cases hn : name ∈ names
    · rw [valuesOf_filter hn]
      exact h name hn
    · rw [length_valuesOf, List.count_eq_zero.2]
      · exact Nat.zero_le 1
      · rintro hmem
        obtain ⟨f, hf, rfl⟩ := List.mem_map.1 hmem
        exact hn (of_decide_eq_true (List.mem_filter.1 hf).2)

theorem optionalText_singleton :
    OptionalText [j] t ↔ j = .null ∧ none = t ∨ ∃ s, j.text? = some s ∧ some s = t := by
  constructor
  · rintro (_ | _ | hs)
    · exact .inl ⟨rfl, rfl⟩
    · exact .inr ⟨_, hs, rfl⟩
  · rintro (⟨rfl, rfl⟩ | ⟨s, hs, rfl⟩)
    · exact .null
    · exact .text hs

theorem optionalTextField?_iff (h : fields.lookup name = values.head?) (hlen : values.length ≤ 1) :
    optionalTextField? fields name = some t ↔ OptionalText values t := by
  rw [optionalTextField?, h]
  match values, hlen with
  | [], _ =>
    constructor
    · intro ht
      cases ht
      exact .missing
    · rintro ⟨⟩
      rfl
  | [j], _ =>
    rw [optionalText_singleton]
    cases j with
    | null => simp [Json.text?]
    | _ => simp [Option.map_eq_some_iff]

/-! ## Responses -/

theorem ofJson?_eq_some : Response.ofJson? j = some r ↔ ∃ fields id,
    j.fields? ["id", "result", "error"] = some fields ∧ fields.lookup "id" = some id ∧
      word? id = some r.number ∧ optionalTextField? fields "result" = some r.result? ∧
      optionalTextField? fields "error" = some r.error? := by
  rw [Response.ofJson?]
  constructor
  · intro h
    obtain ⟨fields, hf, h⟩ := Option.bind_eq_some_iff.1 h
    obtain ⟨id, hid, h⟩ := Option.bind_eq_some_iff.1 h
    obtain ⟨n, hn, h⟩ := Option.bind_eq_some_iff.1 h
    obtain ⟨result, hr, h⟩ := Option.bind_eq_some_iff.1 h
    obtain ⟨error, he, h⟩ := Option.bind_eq_some_iff.1 h
    cases h
    exact ⟨fields, id, hf, hid, hn, hr, he⟩
  · rintro ⟨fields, id, hf, hid, hn, hr, he⟩
    simp [hf, hid, hn, hr, he]

/-- Of an object the fields are read if none of them is there twice. -/
theorem fields?_object_eq_some {names : List String} {known : List (String × Json)} :
    (Json.object members).fields? names = some known ↔ ∃ fields, keys? members = some fields ∧
      (∀ name ∈ names, (valuesOf name fields).length ≤ 1) ∧
      fields.filter (·.1 ∈ names) = known := by
  have hiff {fields : List (String × Json)} :
      (if ((fields.filter (·.1 ∈ names)).map (·.1)).Nodup then
          some (fields.filter (·.1 ∈ names)) else none) = some known ↔
        (∀ name ∈ names, (valuesOf name fields).length ≤ 1) ∧
          fields.filter (·.1 ∈ names) = known := by
    rw [Option.ite_none_right_eq_some, nodup_filter_iff, Option.some.injEq]
  rw [Json.fields?, Option.bind_eq_bind, Option.bind_eq_some_iff]
  simp only [hiff]

theorem valuesOf_eq_singleton (hlen : (valuesOf name fields).length ≤ 1)
    (h : (valuesOf name fields).head? = some id) : valuesOf name fields = [id] := by
  obtain ⟨more, hmore⟩ := List.head?_eq_some_iff.1 h
  rw [hmore, List.length_cons] at hlen
  rw [hmore, List.eq_nil_of_length_eq_zero (by omega : more.length = 0)]

theorem ofJson?_object : Response.ofJson? (.object members) = some r ↔
    IsResponse (.object members) r := by
  have hlookup {fields : List (String × Json)} {name : String}
      (hn : name ∈ ["id", "result", "error"]) :
      (fields.filter (·.1 ∈ ["id", "result", "error"])).lookup name =
        (valuesOf name fields).head? := by
    rw [lookup_eq_head?, valuesOf_filter hn]
  rw [ofJson?_eq_some]
  constructor
  · rintro ⟨known, id, hknown, hid, hn, hr, he⟩
    obtain ⟨fields, hk, hlen, rfl⟩ := fields?_object_eq_some.1 hknown
    rw [hlookup (by decide)] at hid
    have hresult := hlen "result" (by decide)
    have herror := hlen "error" (by decide)
    exact .object hk (valuesOf_eq_singleton (hlen "id" (by decide)) hid) hn
      ((optionalTextField?_iff (hlookup (by decide)) hresult).1 hr)
      ((optionalTextField?_iff (hlookup (by decide)) herror).1 he)
  · intro h
    cases h with
    | object hk hid hn hr he =>
      rename_i fields id
      have hlen : ∀ name ∈ ["id", "result", "error"], (valuesOf name fields).length ≤ 1 := by
        simp only [List.forall_mem_cons]
        exact ⟨by simp [hid], hr.length_le, he.length_le, List.forall_mem_nil _⟩
      refine ⟨_, id, fields?_object_eq_some.2 ⟨fields, hk, hlen, rfl⟩, ?_, hn,
        (optionalTextField?_iff (hlookup (by decide)) hr.length_le).2 hr,
        (optionalTextField?_iff (hlookup (by decide)) he.length_le).2 he⟩
      rw [hlookup (by decide), hid]
      rfl

/-- The items of an array are the fields in order. -/
theorem lookup_zip (id : Json) (rest : List Json) :
    (["id", "result", "error"].zip (id :: rest)).lookup "id" = some id ∧
      (["id", "result", "error"].zip (id :: rest)).lookup "result" = (rest.take 1).head? ∧
      (["id", "result", "error"].zip (id :: rest)).lookup "error" = (rest.drop 1).head? := by
  match rest with
  | [] | [_] | _ :: _ :: _ => exact ⟨rfl, rfl, rfl⟩

theorem ofJson?_array : Response.ofJson? (.array items) = some r ↔ IsResponse (.array items) r := by
  rw [ofJson?_eq_some]
  constructor
  · rintro ⟨fields, id, hfields, hid, hn, hr, he⟩
    rw [Json.fields?] at hfields
    split at hfields
    · rename_i hlen
      cases hfields
      cases items with
      | nil => cases hid
      | cons id' rest =>
        obtain ⟨hid', hresult, herror⟩ := lookup_zip id' rest
        obtain rfl := Option.some.inj (hid'.symm.trans hid)
        refine .array hn ((optionalTextField?_iff hresult ?_).1 hr)
          ((optionalTextField?_iff herror ?_).1 he)
        · exact List.length_take_le 1 rest
        · simp only [List.length_cons, List.length_nil] at hlen
          rw [List.length_drop]
          omega
    · cases hfields
  · intro h
    cases h with
    | array hn hr he =>
      rename_i id rest
      obtain ⟨hid, hresult, herror⟩ := lookup_zip id rest
      refine ⟨_, id, if_pos ?_, hid, hn, (optionalTextField?_iff hresult hr.length_le).2 hr,
        (optionalTextField?_iff herror he.length_le).2 he⟩
      have hlen := he.length_le
      rw [List.length_drop] at hlen
      simp only [List.length_cons, List.length_nil]
      omega

/-- What is read as a response is one, and each response is read. -/
theorem ofJson?_iff : Response.ofJson? j = some r ↔ IsResponse j r := by
  cases j with
  | object members => exact ofJson?_object
  | array items => exact ofJson?_array
  | _ => exact ⟨nofun, nofun⟩

end VaultAgent.Rpc
