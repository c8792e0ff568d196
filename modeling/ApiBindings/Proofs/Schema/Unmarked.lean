import ApiBindings.Proofs.Schema.References
import ApiBindings.Proofs.TypeExpr.Unmarked

/-!
The types of schemas without markers. Main statement: no marker is in the parts that such a type is
put together from.
-/

namespace ApiBindings.Schema

open Text (markers Occurs)

variable {m location : String} {es : Entries} {s : Value} {t : TypeExpr}

def TypesClear (m : String) (s : Value) : Prop :=
  ∀ location t, typeOf s location = .ok t → t.Clear m

theorem referencedName_stopless {ref : String} {place : Option String} {name : String}
    (h : referencedName ref place = .ok name) : Text.Stopless name := by
  have hsuffixes : ∀ c ∈ collections, Text.Stopless c.2 := by decide
  have htarget (roots : List (String × String)) (hroots : ∀ c ∈ roots, Text.Stopless c.2)
      {suffix path : String} (h : target? ref roots = some (suffix, path)) :
      Text.Stopless suffix := by
    induction roots with
    | nil => cases h
    | cons root rest ih =>
      obtain ⟨start, ending⟩ := root
      rw [List.forall_mem_cons] at hroots
      rw [target?] at h
      split at h
      · cases h
        exact hroots.1
      · exact ih hroots.2 h
  unfold referencedName at h
  split at h
  · cases h
  · rename_i suffix path hfound
    obtain ⟨plain, hplain, h⟩ := bind_eq_ok.mp h
    cases pure_eq_ok.mp h
    exact (Naming.stopless_pascalCase hplain).append (htarget _ hsuffixes hfound)

variable (hm : m ∈ markers)
include hm

theorem referencedType_clear {ref : Value} {place : Option String}
    (h : referencedType ref place = .ok t) : t.Clear m := by
  obtain ⟨text, name, rfl, rfl, hname⟩ := referencedType_ok h
  exact TypeExpr.clear_named hm (referencedName_stopless hname)

theorem any_clear : TypeExpr.any.Clear m := TypeExpr.clear_primitive hm (by decide)

theorem enumOr_clear {asText : Bool} {u : TypeExpr}
    (hes : es.Throughout (Scalar.Clear m) fun _ => True) (ht : t.Clear m)
    (h : enumOr es asText t = .ok u) : u.Clear m := by
  rcases enumOr_ok h with ⟨-, henum⟩ | ⟨-, rfl⟩
  · exact TypeExpr.clear_ofEnum hm (hes.get (Value.lasting_clear hm) "enum") henum
  · exact ht

omit hm in
theorem joined_clear {join : List TypeExpr → TypeExpr} {ts : List TypeExpr}
    (hjoin : (∀ u ∈ ts, u.Clear m) → (join ts).Clear m) (hts : ∀ u ∈ ts, u.Clear m) :
    (joined join ts).Clear m := by
  rcases joined_cases join ts with ⟨t, rfl, hjoined⟩ | ⟨-, hjoined⟩
  · rw [hjoined]
    exact hts t (List.mem_singleton_self t)
  · rw [hjoined]
    exact hjoin hts

theorem withRequired_clear {required : Value} {u : TypeExpr} (hrequired : required.Clear m)
    (ht : t.Clear m) (h : withRequired t required = .ok u) : u.Clear m := by
  rcases withRequired_ok h with ⟨-, rfl⟩ | ⟨-, elements, keys, helements, hkeys, rfl⟩
  · exact ht
  · refine .requiring ht fun k hk => ?_
    obtain ⟨v, hv, hkey⟩ := exists_left_of_forall₂ hkeys hk
    have hclear := hrequired.elements (Value.lasting_clear hm) helements v hv
    rw [Value.textField_ok hkey] at hclear
    exact Value.throughout_scalar.mp hclear

theorem inlineDescription_clear (hs : s.Clear m) : (inlineDescription s).Clear m := by
  have hnull : Value.null.Clear m := Value.throughout_scalar.mpr trivial
  unfold inlineDescription
  split
  · split_ifs
    · exact hnull
    · exact (Value.throughout_map.mp hs).get (Value.lasting_clear hm) "description"
  · exact hnull

theorem descriptions_clear {properties : Entries} {required : Value}
    {fields : List (Field × TypeExpr)}
    (hproperties : ∀ p ∈ properties, p.2.Clear m)
    (h : fieldTypes properties required location = .ok fields) :
    ∀ f ∈ fields, ¬ Occurs m (f.1.description.getD "") := by
  induction properties generalizing fields with
  | nil =>
    rw [fieldTypes] at h
    cases h
    exact List.forall_mem_nil _
  | cons p rest ih =>
    obtain ⟨key, schema⟩ := p
    rw [List.forall_mem_cons] at hproperties
    rw [fieldTypes] at h
    obtain ⟨t, -, h⟩ := bind_eq_ok.mp h
    obtain ⟨isRequired, -, h⟩ := bind_eq_ok.mp h
    obtain ⟨name, -, h⟩ := bind_eq_ok.mp h
    obtain ⟨description, hdescription, h⟩ := bind_eq_ok.mp h
    obtain ⟨fields', hfields, h⟩ := bind_eq_ok.mp h
    cases pure_eq_ok.mp h
    refine List.forall_mem_cons.mpr ⟨?_, ih hproperties.2 hfields⟩
    cases description with
    | none => exact fun ho => Text.marker_ne_empty hm ho.eq_empty
    | some text =>
      have htext := inlineDescription_clear hm hproperties.1
      rw [Value.optionalTextField_ok hdescription text rfl] at htext
      exact (Value.throughout_scalar.mp htext : Text.Clear m text).lacks

section Parts

variable (hparts : ∀ s, Part es s → TypesClear m s)
include hparts

theorem memberTypes_clear {key : String} {types : List TypeExpr} (hkey : key ∈ compositionKeys)
    (h : memberTypes es key location = .ok types) : ∀ t ∈ types, t.Clear m := by
  intro t ht
  rcases memberTypes_cases h with ⟨items, hitems, hresolve⟩ | ⟨-, hany⟩
  · obtain ⟨s, hs, place, htype⟩ := exists_left_of_forall₂ hresolve ht
    exact hparts s (.member hkey hitems hs) place t htype
  · rw [hany t ht]
    exact any_clear hm

variable (hes : es.Throughout (Scalar.Clear m) fun _ => True)
include hes

theorem propertyTypes_clear {fields : List (Field × TypeExpr)}
    (h : propertyTypes es location = .ok fields) :
    (∀ f ∈ fields, Text.Clear m f.1.name ∧ ¬ Occurs m (f.1.description.getD "")) ∧
      ∀ f ∈ fields, f.2.Clear m := by
  have hmap (label : Option Nat) (properties : Entries)
      (hp : es.get? "properties" = some (.map label properties)) :
      (∀ f ∈ fields, Text.Clear m f.1.name ∧ ¬ Occurs m (f.1.description.getD "")) ∧
        ∀ f ∈ fields, f.2.Clear m := by
    have hentries := (Value.throughout_map.mp (hes.find? hp)).2
    have hfields := propertyTypes_ok hp h
    have hdescriptions := descriptions_clear hm (fun p hp => (hentries p hp).2) hfields
    refine ⟨fun f hf => ⟨?_, hdescriptions f hf⟩, fun f hf => ?_⟩
    · obtain ⟨p, hmem, hkey, -⟩ := exists_left_of_forall₂ (fieldTypes_ok hfields) hf
      have hclear := (hentries p hmem).1
      rwa [hkey] at hclear
    · obtain ⟨p, hmem, -, -, place, htype⟩ := exists_left_of_forall₂ (fieldTypes_ok hfields) hf
      exact hparts p.2 (.property hp hmem) place f.2 htype
  rw [propertyTypes] at h
  split at h
  · cases h
    exact ⟨List.forall_mem_nil _, List.forall_mem_nil _⟩
  · rename_i label properties hp
    exact hmap label properties hp
  · split_ifs at h
    cases h
    exact ⟨List.forall_mem_nil _, List.forall_mem_nil _⟩

theorem Assemble.clear (h : Assemble es location t) : t.Clear m := by
  have hrequired := hes.get (Value.lasting_clear hm) "required"
  cases h with
  | allOf _ hmembers ht =>
    have hall := memberTypes_clear hm hparts (by simp) hmembers
    exact withRequired_clear hm hrequired (joined_clear .intersection hall) ht
  | anyOf _ hmembers =>
    exact joined_clear .union (memberTypes_clear hm hparts (by simp) hmembers)
  | oneOf _ hmembers ht =>
    have hall := memberTypes_clear hm hparts (by simp) hmembers
    exact withRequired_clear hm hrequired (joined_clear .union hall) ht
  | empty => exact .shape (List.forall_mem_nil _) (List.forall_mem_nil _) fun _ ht => nomatch ht
  | freeForm => exact .freeFormMap
  | shape _ _ hfields hindex =>
    obtain ⟨hnames, htypes⟩ := propertyTypes_clear hm hparts hes hfields
    refine .shape hnames htypes fun u hu => ?_
    rcases indexType_ok hindex with ⟨rfl, -⟩ | ⟨s, u', hs, rfl, place, htype⟩
    · cases hu
    · cases hu
      exact hparts s (.additional hs) place u htype
  | unconstrained => exact any_clear hm

theorem Dispatch.clear {kind : Kind} (h : Dispatch es location kind t)
    (href : reference? es = none) : t.Clear m := by
  cases h with
  | numeric h => exact enumOr_clear hm hes (TypeExpr.clear_primitive hm (by decide)) h
  | boolean h => exact enumOr_clear hm hes (TypeExpr.clear_primitive hm (by decide)) h
  | textual h => exact enumOr_clear hm hes (TypeExpr.clear_primitive hm (by decide)) h
  | array h =>
    obtain ⟨s, item, hs, ⟨place, htype⟩, ht⟩ := arrayType_ok h
    have hitem := hparts s (.items hs) place item htype
    rcases ht with rfl | ⟨n, rfl, -⟩
    · exact .array hitem
    · exact .tuple hitem
  | enumeration _ _ h =>
    exact TypeExpr.clear_ofEnum hm (hes.get (Value.lasting_clear hm) "enum") h
  | untyped _ h => exact (objectType_ok href h).clear hm hparts hes
  | object _ h => exact (objectType_ok href h).clear hm hparts hes

theorem mappingType_clear (href : reference? es = none) (h : mappingType es location = .ok t) :
    t.Clear m := by
  obtain ⟨kind, -, ⟨-, rfl⟩ | ⟨u, hu, rfl⟩⟩ := mappingType_ok h
  · exact TypeExpr.clear_primitive hm (by decide)
  · have hclear := hu.clear hm hparts hes href
    split_ifs
    · exact TypeExpr.clear_nullable hm hclear
    · exact hclear

end Parts

/-- No marker is in the parts of a type if none is in the schema. -/
theorem typeOf_clear (s : Value) (hs : s.Clear m) : TypesClear m s := by
  intro location t h
  match s with
  | .map label es =>
    cases href : reference? es with
    | some ref =>
      rw [typeOf_reference href] at h
      exact referencedType_clear hm h
    | none =>
      rw [typeOf_mapping href] at h
      have hes := Value.throughout_map.mp hs
      have hparts (s : Value) (hpart : Part es s) : TypesClear m s :=
        have := hpart.sizeOf_lt
        typeOf_clear s (hpart.throughout hes)
      exact mappingType_clear hm hparts hes href h
  | .scalar v =>
    rw [typeOf_scalar] at h
    cases h
    exact any_clear hm
  | .list _ | .set _ | .pair _ _ =>
    rw [typeOf] at h
    · cases h
      exact any_clear hm
    · rintro _ _ ⟨⟩
termination_by sizeOf s

theorem contentType_clear {body : Value} (hbody : body.Clear m)
    (h : contentType body location = .ok t) : t.Clear m := by
  rcases contentType_cases h with
    rfl | ⟨label, es, rfl, ⟨ref, -, hread⟩ | ⟨-, s, place, hmedia, htype⟩⟩
  · exact TypeExpr.clear_primitive hm (by decide)
  · exact referencedType_clear hm hread
  · have hs := hmedia.throughout (Value.lasting_clear hm) (Value.throughout_map.mp hbody)
    exact typeOf_clear hm s hs place t htype

theorem contentUnion_clear {bodies : Entries} (hbodies : ∀ e ∈ bodies, e.2.Clear m)
    (h : contentUnion bodies location = .ok (some t)) : t.Clear m := by
  obtain ⟨types, htypes, h⟩ := bind_eq_ok.mp h
  refine TypeExpr.clear_unionOf (fun u hu => ?_) (pure_eq_ok.mp h)
  obtain ⟨e, he, hbody⟩ := exists_left_of_forall₂ (mapM_eq_ok.mp htypes) hu
  exact contentType_clear hm (hbodies e he) hbody

end ApiBindings.Schema
