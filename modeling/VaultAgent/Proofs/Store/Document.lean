import VaultAgent.Proofs.Json.Printer
import VaultAgent.Proofs.NameMap
import VaultAgent.Store.Record

/-!
# The stored document, read back

Writing records as a document and reading it loses nothing, whatever the names and the fields hold
(`ofDocument?_toDocument`).
-/

namespace VaultAgent.Store

open Json

/-! ## One record -/

theorem Record.wellFormed_toJson (r : Record) : r.toJson.WellFormed := by
  refine .object ?_ ?_
  · simp [isBody_escape]
  · simp [WellFormed.ofText]

theorem Record.ofJson?_toJson (r : Record) : Record.ofJson? r.toJson = some r := by
  simp [Record.ofJson?, Record.toJson, fields?, keys?, fieldNames, textField?, List.lookup_cons]

/-! ## The document -/

namespace Records

theorem wellFormed_toJson (m : Records) : (toJson m).WellFormed := by
  refine .object (fun e he => ?_) (fun e he => ?_)
  all_goals obtain ⟨⟨name, r⟩, -, rfl⟩ := List.mem_map.1 he
  · exact isBody_escape name
  · exact r.wellFormed_toJson

theorem toJson_eq (m : Records) :
    toJson m = .object (m.toList.map fun e => (escape e.1, e.2.toJson)) := rfl

theorem ofJson?_toJson (m : Records) : ofJson? (toJson m) = some m := by
  have hk : keys? (m.toList.map fun e => (escape e.1, e.2.toJson)) =
      some (m.toList.map fun e => (e.1, e.2.toJson)) := by
    have h := keys?_escape (m.toList.map fun e => (e.1, e.2.toJson))
    rwa [List.map_map] at h
  have hr := mapM_map_eq_some (fun e : String × Record => (e.1, e.2.toJson))
    (fun e => do return (e.1, ← Record.ofJson? e.2))
    (fun e => by simp [Record.ofJson?_toJson]) m.toList
  rw [toJson_eq, ofJson?, hk]
  exact (congrArg (NameMap.ofList <$> ·) hr).trans (congrArg some (NameMap.ofList_toList m))

@[simp] theorem ofDocument?_toDocument (m : Records) : ofDocument? m.toDocument = some m := by
  have h : (Json.object [(escape "Secrets", toJson m)]).WellFormed :=
    .object (by simp [isBody_escape]) (by simp [wellFormed_toJson])
  rw [toDocument, ofDocument?, ofBytes?_pretty h]
  simp [fields?, keys?, ofJson?_toJson]

end Records

end VaultAgent.Store
