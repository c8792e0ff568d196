import ApiBindings.Proofs.Client.Calls
import ApiBindings.Proofs.Schema.Tagging

/-!
What holds in all of a document holds in all that a run reads: in the components after their
discriminators are followed, and in every operation.
-/

namespace ApiBindings.Client

open Operation (Call)
open Value (Lasting)

variable {S : Scalar → Prop} {Q : Entries → Prop} (hlasting : Lasting S Q) {document : Value}
  (hdocument : document.Throughout S Q)
include hlasting hdocument

theorem calls_throughout {c : Call} (hc : c ∈ calls document) :
    S c.route ∧ c.operation.Throughout S Q ∧ c.routeParameters.Throughout S Q := by
  obtain ⟨e, he, hc⟩ := List.mem_flatMap.mp hc
  obtain ⟨f, hf, rfl⟩ := List.mem_map.mp hc
  have hpaths := ((hdocument.members hlasting).get hlasting "paths").members hlasting
  have hpath := (hpaths.2 e he).2.members hlasting
  exact ⟨(hpaths.2 e he).1, (hpath.2 f (List.mem_of_mem_filter hf)).2.members hlasting,
    hpath.get hlasting "parameters"⟩

theorem narrowedComponents_throughout (hproperties : S (.str "properties"))
    (henum : S (.str "enum")) {shared : Entries} {s t : Session}
    (h : Returns (narrowedComponents document.members) s shared t) (key : String) :
    (shared.get key).Throughout S Q := by
  rw [narrowedComponents] at h
  obtain ⟨components, hcomponents, h⟩ := returns_lift_bind.mp h
  have hdeclared := (hdocument.members hlasting).get hlasting "components"
  have hall : ∀ e ∈ components, S e.1 ∧ e.2.Throughout S Q := by
    split_ifs at hcomponents
    · exact hdeclared.toEntries hlasting hcomponents
    · cases hcomponents
      exact List.forall_mem_nil _
  have hget (key : String) : (components.get key).Throughout S Q := by
    rw [Entries.get]
    cases hfound : components.get? key with
    | none => exact Value.throughout_scalar.mpr hlasting.null
    | some v =>
      obtain ⟨k, hk⟩ := Entries.exists_mem_of_find? hfound
      exact (hall _ hk).2
  -- only the schemas are replaced, and only if there are any
  dsimp only at h
  split_ifs at h
  · obtain ⟨narrowed, u, htold, h⟩ := returns_bind.mp h
    obtain ⟨log, hfollowed, -⟩ := returns_telling.mp htold
    obtain ⟨rfl, -⟩ := returns_pure.mp h
    by_cases hkey : key = "schemas"
    · rw [hkey, Entries.get_put_self]
      exact Value.throughout_map.mpr (Schema.followDiscriminators_throughout hlasting hproperties
        henum (hget "schemas") hfollowed)
    · rw [Entries.get_put_of_ne hkey]
      exact hget key
  · obtain ⟨rfl, -⟩ := returns_pure.mp h
    exact hget key

end ApiBindings.Client
