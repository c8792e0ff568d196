import ApiBindings.Proofs.Declaration.Run
import ApiBindings.Proofs.Document.Throughout
import ApiBindings.Schema.Discriminator

/-!
Following discriminators as a sequence of steps: in each of them one value selects one schema. Main
statement: a run that returns has taken the steps that the mappings ask for, in their order.
-/

namespace ApiBindings.Schema

section NarrowTarget

variable {schemas : Entries} {target : Scalar}

def propertiesOf? (schemas : Entries) (target : Scalar) : Option Value :=
  match schemas.find? target with
  | some (.map _ schema) => Entries.find? schema (.str "properties")
  | _ => none

def opened (schemas : Entries) (target : Scalar) : Entries :=
  match propertiesOf? schemas target with
  | some _ => schemas
  | none => schemas.write [target] (·.put (.str "properties") (.ofEntries []))

/-- Whether a property takes an enumeration: a reference does not, and neither does what is no
mapping. -/
def hasRoom (properties : Entries) (key : Scalar) : Bool :=
  match properties.find? key with
  | some (.map _ es) => (reference? es).isNone
  | _ => false

def tag (schemas properties : Entries) (target key value : Scalar) : Entries :=
  if hasRoom properties key then
    schemas.write [target, .str "properties", key] (·.put (.str "enum") (tagEnumeration value))
  else
    schemas.write [target, .str "properties"]
      (·.put key (.ofEntries [(.str "enum", tagEnumeration value)]))

theorem narrowTarget_eq (schemas : Entries) (target : Scalar) (property : Value) (value : Scalar) :
    narrowTarget schemas target property value = (do
      let properties ← ((propertiesOf? (opened schemas target) target).getD .null).entries
      let key ← property.expectKey
      return tag (opened schemas target) properties target key value) := by
  refine bind_congr fun properties => bind_congr fun key => ?_
  exact (apply_ite pure (hasRoom properties key = true) _ _).symm

theorem narrowTarget_ok {property : Value} {value : Scalar} {narrowed : Entries}
    (h : narrowTarget schemas target property value = .ok narrowed) :
    ∃ label properties key, propertiesOf? (opened schemas target) target =
        some (.map label properties) ∧
      property = .scalar key ∧
      narrowed = tag (opened schemas target) properties target key value := by
  rw [narrowTarget_eq] at h
  obtain ⟨properties, hproperties, h⟩ := bind_eq_ok.mp h
  obtain ⟨key, hkey, h⟩ := bind_eq_ok.mp h
  cases hfound : propertiesOf? (opened schemas target) target with
  | none =>
    rw [hfound] at hproperties
    cases hproperties
  | some v =>
    rw [hfound, Option.getD_some] at hproperties
    cases v with
    | map label es =>
      cases hproperties
      exact ⟨label, properties, key, rfl, Value.expectKey_ok hkey, (pure_eq_ok.mp h).symm⟩
    | _ => cases hproperties

end NarrowTarget

/-- A value of a property by which the schema `target` is selected. -/
structure Tagging where
  target : String
  property : Value
  value : Scalar

namespace Tagging

def ofPair? (property : Value) (e : Scalar × Value) : Option Tagging :=
  match e.2 with
  | .scalar (.str ref) =>
    (Text.dropStart? schemasRoot ref).map fun path => ⟨Pointer.unescape path, property, e.1⟩
  | _ => none

/-- What the discriminator of a schema maps; a reference has no discriminator. -/
def ofSchema : Value → List Tagging
  | .map _ es =>
    if (reference? es).isSome then []
    else
      let discriminator := (Entries.get es "discriminator").members
      (discriminator.get "mapping").members.filterMap (ofPair? (discriminator.get "propertyName"))
  | _ => []

def ofSchemas (schemas : Entries) : List Tagging := schemas.flatMap fun e => ofSchema e.2

/-- Narrows the target of a tagging. One that is missing, or no mapping, is passed over. -/
def narrow (schemas : Entries) (d : Tagging) : Except Fault Entries :=
  match schemas.find? (.str d.target) with
  | some (.map ..) => narrowTarget schemas (.str d.target) d.property d.value
  | _ => .ok schemas

end Tagging

open Tagging

variable {schemas narrowed : Entries} {s t : Log}

theorem followMapping_returns {d : Discriminator} {value : Scalar} {ref : Value}
    (h : Returns (followMapping d schemas value ref) s narrowed t) :
    ∃ e, ofPair? d.property (value, ref) = some e ∧ narrow schemas e = .ok narrowed := by
  rw [followMapping] at h
  obtain ⟨text, htext, hrun⟩ := returns_lift_bind.mp h
  rw [Value.expectText_ok htext, ofPair?]
  dsimp only
  cases hpath : Text.dropStart? schemasRoot text with
  | none =>
    rw [hpath] at hrun
    exact absurd hrun not_returns_throw
  | some path =>
    rw [hpath] at hrun
    refine ⟨_, rfl, ?_⟩
    dsimp only at hrun
    split at hrun
    · rename_i hfound
      obtain ⟨narrowed', hnarrowed, hrun⟩ := returns_lift_bind.mp hrun
      obtain ⟨_, u, -, hrun⟩ := returns_bind.mp hrun
      obtain ⟨rfl, -⟩ := returns_pure.mp hrun
      rw [narrow]
      dsimp only
      rwa [hfound]
    · rename_i hmissing
      obtain ⟨_, u, -, hrun⟩ := returns_bind.mp hrun
      obtain ⟨rfl, -⟩ := returns_pure.mp hrun
      rw [narrow]
      dsimp only
      split
      · rename_i hfound
        exact absurd hfound (hmissing _ _)
      · rfl

theorem foldlM_returns {α : Type} {f : Entries → α → Telling Entries} {g : α → List Tagging}
    (hf : ∀ schemas x s narrowed t, Returns (f schemas x) s narrowed t →
      (g x).foldlM narrow schemas = .ok narrowed)
    {xs : List α} (h : Returns (xs.foldlM f schemas) s narrowed t) :
    (xs.flatMap g).foldlM narrow schemas = .ok narrowed := by
  induction xs generalizing schemas s with
  | nil =>
    obtain ⟨rfl, -⟩ := returns_pure.mp h
    rfl
  | cons x xs ih =>
    rw [List.foldlM_cons] at h
    obtain ⟨next, u, hx, h⟩ := returns_bind.mp h
    rw [List.flatMap_cons, List.foldlM_append, hf _ _ _ _ _ hx]
    exact ih h

theorem followSchema_returns {name : Scalar} {schema : Value}
    (h : Returns (followSchema schemas name schema) s narrowed t) :
    (ofSchema schema).foldlM narrow schemas = .ok narrowed := by
  cases schema with
  | map label es =>
    rw [followSchema] at h
    rw [ofSchema]
    split_ifs at h ⊢
    · obtain ⟨rfl, -⟩ := returns_pure.mp h
      rfl
    · obtain ⟨discriminator, hdiscriminator, h⟩ := returns_lift_bind.mp h
      cases Value.entriesOrNone_ok hdiscriminator
      dsimp only at h ⊢
      rw [List.filterMap_eq_flatMap_toList]
      split_ifs at h with hfilled
      · obtain ⟨mapping, hmapping, h⟩ := returns_lift_bind.mp h
        cases Value.entries_ok hmapping
        refine foldlM_returns (fun schemas e s narrowed t he => ?_) h
        obtain ⟨d, hd, hnarrowed⟩ := followMapping_returns he
        rw [show ofPair? _ e = some d from hd, Option.toList_some, List.foldlM_cons, hnarrowed]
        rfl
      · obtain ⟨rfl, -⟩ := returns_pure.mp h
        rw [Value.members_of_not_isFilled hfilled]
        rfl
  | _ =>
    obtain ⟨rfl, -⟩ := returns_pure.mp h
    rfl

/-- What is returned is the collection after the taggings that stand in it at the beginning. -/
theorem followDiscriminators_returns {v : Value}
    (h : Returns (followDiscriminators v) s narrowed t) :
    (ofSchemas v.members).foldlM narrow v.members = .ok narrowed := by
  rw [followDiscriminators] at h
  obtain ⟨source, hsource, h⟩ := returns_lift_bind.mp h
  cases Value.entriesOrNone_ok hsource
  exact foldlM_returns (fun _ e _ _ _ he => followSchema_returns he) h

theorem foldlM_narrow {I : Entries → Prop} {taggings : List Tagging}
    (hstep : ∀ schemas, ∀ d ∈ taggings, ∀ narrowed, I schemas → narrow schemas d = .ok narrowed →
      I narrowed)
    (h : taggings.foldlM narrow schemas = .ok narrowed) (hI : I schemas) : I narrowed := by
  induction taggings generalizing schemas with
  | nil =>
    cases pure_eq_ok.mp h
    exact hI
  | cons d taggings ih =>
    rw [List.foldlM_cons] at h
    obtain ⟨next, hnext, h⟩ := bind_eq_ok.mp h
    refine ih (fun schemas d' hd' => ?_) h (hstep _ d List.mem_cons_self _ hI hnext)
    exact hstep schemas d' (List.mem_cons_of_mem d hd')

section Throughout

open Value (Lasting)

variable {P : Scalar → Prop} {Q : Entries → Prop} (hlasting : Lasting P Q)
include hlasting

theorem Tagging.throughout {d : Tagging} (hschemas : ∀ e ∈ schemas, e.2.Throughout P Q)
    (hd : d ∈ ofSchemas schemas) : P d.value ∧ d.property.Throughout P Q := by
  obtain ⟨e, he, hd⟩ := List.mem_flatMap.mp hd
  have hschema := hschemas e he
  unfold ofSchema at hd
  split at hd
  · rename_i label es hes
    rw [hes, Value.throughout_map] at hschema
    split_ifs at hd
    · cases hd
    · have hdiscriminator := (hschema.get hlasting "discriminator").members hlasting
      obtain ⟨entry, hentry, hd⟩ := List.mem_filterMap.mp hd
      have hmapping := (hdiscriminator.get hlasting "mapping").members hlasting
      rw [ofPair?] at hd
      split at hd
      · obtain ⟨path, -, rfl⟩ := Option.map_eq_some_iff.mp hd
        exact ⟨(hmapping.2 entry hentry).1, hdiscriminator.get hlasting "propertyName"⟩
      · cases hd
  · cases hd

variable (hproperties : P (.str "properties"))
include hproperties

theorem throughout_opened (hschemas : schemas.Throughout P Q) (target : Scalar) :
    (opened schemas target).Throughout P Q := by
  have hempty : (Value.ofEntries []).Throughout P Q :=
    Value.throughout_map.mpr (Entries.throughout_nil hlasting)
  unfold opened
  split
  · exact hschemas
  · exact hschemas.write hlasting
      (fun es hes => hes.put hlasting hproperties hempty fun _ => nofun) _

variable (henum : P (.str "enum"))
include henum

theorem narrowTarget_throughout {target value : Scalar} {property : Value}
    (hschemas : schemas.Throughout P Q) (hproperty : property.Throughout P Q) (hvalue : P value)
    (h : narrowTarget schemas target property value = .ok narrowed) :
    narrowed.Throughout P Q := by
  obtain ⟨label, properties, key, -, rfl, rfl⟩ := narrowTarget_ok h
  rw [Value.throughout_scalar] at hproperty
  have henumeration : (tagEnumeration value).Throughout P Q := by
    rw [tagEnumeration, Value.throughout_list]
    exact List.forall_mem_singleton.mpr (Value.throughout_scalar.mpr hvalue)
  have hfresh : (Value.ofEntries [(.str "enum", tagEnumeration value)]).Throughout P Q :=
    Value.throughout_map.mpr ((Entries.throughout_nil hlasting).put hlasting henum henumeration
      fun _ => nofun)
  have hopened := throughout_opened hlasting hproperties hschemas target
  unfold tag
  split_ifs
  · exact hopened.write hlasting
      (fun es hes => hes.put hlasting henum henumeration fun _ => nofun) _
  · exact hopened.write hlasting
      (fun es hes => hes.put hlasting hproperty hfresh fun _ => nofun) _

theorem followDiscriminators_throughout {v : Value} (hv : v.Throughout P Q)
    (h : Returns (followDiscriminators v) s narrowed t) : narrowed.Throughout P Q := by
  have hmembers := hv.members hlasting
  refine foldlM_narrow (fun schemas d hd next hschemas hnext => ?_)
    (followDiscriminators_returns h) hmembers
  obtain ⟨hvalue, hproperty⟩ := Tagging.throughout hlasting (fun e he => (hmembers.2 e he).2) hd
  rw [narrow] at hnext
  split at hnext
  · exact narrowTarget_throughout hlasting hproperties henum hschemas hproperty hvalue hnext
  · cases hnext
    exact hschemas

end Throughout

end ApiBindings.Schema
