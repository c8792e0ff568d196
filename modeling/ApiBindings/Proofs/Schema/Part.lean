import ApiBindings.Proofs.Document.Throughout
import ApiBindings.Schema.Content

/-!
The schemas inside of a schema or of a body. Main statement: each is smaller than the mapping that
uses it, so that what holds in all of the mapping holds in all of them.
-/

namespace ApiBindings.Schema

def compositionKeys : List String := ["allOf", "anyOf", "oneOf"]

@[simp]
theorem mem_compositionKeys {key : String} :
    key ∈ compositionKeys ↔ key = "allOf" ∨ key = "anyOf" ∨ key = "oneOf" := by
  simp [compositionKeys]

/-- The first of these keywords that is filled. The others are passed over. -/
def composition? (es : Entries) : Option String :=
  compositionKeys.find? fun key => (es.get key).isFilled

theorem isFilled_of_composition? {es : Entries} {key : String} (h : composition? es = some key) :
    key ∈ compositionKeys ∧ (es.get key).isFilled = true := by
  rw [composition?] at h
  exact ⟨List.mem_of_find?_eq_some h, by simpa using List.find?_some h⟩

theorem composition?_eq_none {es : Entries} :
    composition? es = none ↔ isComposition es = false := by
  simp [composition?, compositionKeys, isComposition, and_assoc]

/-- A schema that is used directly by the keywords of another. -/
inductive Part (es : Entries) : Value → Prop
  | items {s : Value} : es.get? "items" = some s → Part es s
  | property {label : Option Nat} {properties : Entries} {key : Scalar} {s : Value} :
    es.get? "properties" = some (.map label properties) → (key, s) ∈ properties → Part es s
  | additional {s : Value} : es.get? "additionalProperties" = some s → Part es s
  | member {key : String} {members : List Value} {s : Value} :
    key ∈ compositionKeys → es.get? key = some (.list members) → s ∈ members → Part es s

theorem Part.sizeOf_lt {es : Entries} {s : Value} (h : Part es s) : sizeOf s < sizeOf es := by
  cases h with
  | items h => exact sizeOf_of_get? h
  | property h hmem =>
    have hp := sizeOf_of_get? h
    have he := List.sizeOf_lt_of_mem hmem
    simp only [Value.map.sizeOf_spec, Prod.mk.sizeOf_spec] at hp he
    omega
  | additional h => exact sizeOf_of_get? h
  | member _ h hmem =>
    have hl := sizeOf_of_get? h
    have hs := List.sizeOf_lt_of_mem hmem
    simp only [Value.list.sizeOf_spec] at hl
    omega

section Throughout

variable {S : Scalar → Prop} {Q : Entries → Prop} {es : Entries}

theorem Part.throughout {s : Value} (hs : Part es s) (hes : es.Throughout S Q) :
    s.Throughout S Q := by
  cases hs with
  | items h => exact hes.find? h
  | property h hmem => exact ((Value.throughout_map.mp (hes.find? h)).2 _ hmem).2
  | additional h => exact hes.find? h
  | member _ h hmem => exact Value.throughout_list.mp (hes.find? h) s hmem

theorem findMedia?_mem {start name : String} {content : List (Scalar × Value)} {media : Value}
    (h : findMedia? start content = .ok (some (name, media))) : (.str name, media) ∈ content := by
  induction content with
  | nil => cases h
  | cons e rest ih =>
    obtain ⟨key, value⟩ := e
    rw [findMedia?] at h
    obtain ⟨text, htext, h⟩ := bind_eq_ok.mp h
    split_ifs at h
    · cases pure_eq_ok.mp h
      cases Value.expectText_ok htext
      exact List.mem_cons_self
    · exact List.mem_cons_of_mem _ (ih h)

theorem selectMedia?_mem {starts : List String} {name : String} {content : List (Scalar × Value)}
    {media : Value} (h : selectMedia? content starts = .ok (some (name, media))) :
    (.str name, media) ∈ content := by
  induction starts with
  | nil => cases h
  | cons start rest ih =>
    rw [selectMedia?] at h
    obtain ⟨found, hfound, h⟩ := bind_eq_ok.mp h
    cases found with
    | some found =>
      cases pure_eq_ok.mp h
      exact findMedia?_mem hfound
    | none => exact ih h

theorem mediaSchema_throughout (hlasting : Value.Lasting S Q) (hes : es.Throughout S Q)
    {content : Entries} {name : String} {media : Value}
    (hcontent : (es.get "content").entries = .ok content)
    (hfound : selectMedia? content mediaPriority = .ok (some (name, media))) :
    (media.members.get "schema").Throughout S Q := by
  have hbody := (hes.get hlasting "content").members hlasting
  rw [← Value.entries_ok hcontent] at hbody
  have hmedia := (hbody.2 _ (selectMedia?_mem hfound)).2.members hlasting
  exact hmedia.get hlasting "schema"

end Throughout

end ApiBindings.Schema
