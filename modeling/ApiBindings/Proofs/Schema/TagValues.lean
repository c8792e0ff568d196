import ApiBindings.Proofs.Document.Keys
import ApiBindings.Proofs.Schema.Narrowing

/-!
The values that discriminators leave to the properties of their targets. Main statement: of all
values that select one schema by one property, the last one alone is left.
-/

namespace ApiBindings.Schema

def enumerationIn (properties : Entries) (key : Scalar) : Value :=
  ((properties.find? key).getD .null).members.get "enum"

def enumerationOf (schemas : Entries) (target : String) (key : Scalar) : Value :=
  enumerationIn ((propertiesOf? schemas (.str target)).getD .null).members key

def Tagging.valueAt? (target : String) (key : Scalar) (d : Tagging) : Option Scalar :=
  match d.property with
  | .scalar property => if d.target = target ∧ property.isKey key = true then some d.value else none
  | _ => none

def lastValue? (taggings : List Tagging) (target : String) (key : Scalar) : Option Scalar :=
  (taggings.filterMap (Tagging.valueAt? target key)).getLast?

section Writes

variable {schemas : Entries} {target other : String} {path : List Scalar} {f : Entries → Entries}

def mapEntries (f : Entries → Entries) : Value → Value
  | .map label es => .map label (f es)
  | v => v

theorem modifyAt_cons (es : Entries) (key : Scalar) (path : List Scalar) (f : Entries → Entries) :
    es.modifyAt (key :: path) f = es.adjust key (mapEntries (·.modifyAt path f)) := by
  rw [Entries.modifyAt]
  congr

theorem propertiesOf?_eq (schemas : Entries) (target : String) :
    propertiesOf? schemas (.str target) =
      (schemas.get? target).bind fun schema => schema.members.get? "properties" := by
  rw [propertiesOf?, Entries.get?]
  cases schemas.find? (.str target) with
  | none => rfl
  | some v => cases v <;> rfl

theorem get?_members_mapEntries_adjust (v : Value) (f : Value → Value) :
    (mapEntries (Entries.adjust · (.str "properties") f) v).members.get? "properties" =
      (v.members.get? "properties").map f := by
  cases v with
  | map label es => exact Entries.get?_adjust_self es "properties" f
  | _ => rfl

theorem isMap_get_modifyAt :
    ((schemas.modifyAt (.str target :: path) f).get other).isMap = (schemas.get other).isMap := by
  rw [modifyAt_cons, Entries.get, Entries.get]
  by_cases h : other = target
  · subst h
    rw [Entries.get?_adjust_self]
    cases schemas.get? other with
    | none => rfl
    | some v => cases v <;> rfl
  · rw [Entries.get?_adjust_of_ne h]

theorem propertiesOf?_modifyAt_of_ne (h : other ≠ target) :
    propertiesOf? (schemas.modifyAt (.str target :: path) f) (.str other) =
      propertiesOf? schemas (.str other) := by
  rw [propertiesOf?_eq, propertiesOf?_eq, modifyAt_cons, Entries.get?_adjust_of_ne h]

theorem propertiesOf?_modifyAt_self :
    propertiesOf? (schemas.modifyAt (.str target :: .str "properties" :: path) f) (.str target) =
      (propertiesOf? schemas (.str target)).map (mapEntries (·.modifyAt path f)) := by
  rw [propertiesOf?_eq, propertiesOf?_eq, modifyAt_cons, Entries.get?_adjust_self]
  cases schemas.get? target with
  | none => rfl
  | some v =>
    simp only [Option.map_some, Option.bind_some, modifyAt_cons]
    exact get?_members_mapEntries_adjust v _

end Writes

section Step

variable {schemas narrowed : Entries} {target other : String} {key property value : Scalar}

/-- A collection of JSON values, in which properties may stand under any keys of JSON. -/
structure JsonCollection (schemas : Entries) : Prop where
  unlabelled : schemas.Unlabelled
  scalars : schemas.Throughout (fun s => s.isJson = true) fun _ => True

theorem JsonCollection.keys {label : Option Nat} {properties : Entries}
    (h : JsonCollection schemas)
    (hproperties : propertiesOf? schemas (.str target) = some (.map label properties)) :
    properties.JsonKeys := by
  rw [propertiesOf?_eq] at hproperties
  obtain ⟨schema, hschema, hproperties⟩ := Option.bind_eq_some_iff.mp hproperties
  have hmembers := (h.scalars.find? hschema).members Value.lasting_isJson
  exact fun e he => ((Value.throughout_map.mp (hmembers.find? hproperties)).2 e he).1

theorem enumerationOf_opened (hschemas : schemas.Unlabelled) (target : String) :
    enumerationOf (opened schemas (.str target)) other key = enumerationOf schemas other key := by
  rw [opened]
  split
  · rfl
  · rename_i hnone
    rw [hschemas.write_eq, enumerationOf, enumerationOf]
    by_cases hother : other = target
    · subst hother
      rw [hnone, propertiesOf?_eq, modifyAt_cons, Entries.get?_adjust_self]
      cases schemas.get? other with
      | none => rfl
      | some v =>
        cases v with
        | map label es =>
          simp only [Option.map_some, Option.bind_some, mapEntries, Entries.modifyAt,
            Value.members, Entries.get?_put_self]
          rfl
        | _ => rfl
    · rw [propertiesOf?_modifyAt_of_ne hother]

section Properties

variable {properties : Entries} (hkeys : properties.JsonKeys) (hproperty : property.isJson = true)
  (hkey : key.isJson = true)
include hkeys hproperty hkey

theorem enumerationIn_put (enumeration : Value) :
    enumerationIn (properties.put property (.ofEntries [(.str "enum", enumeration)])) key =
      if property.isKey key then enumeration else enumerationIn properties key := by
  rw [enumerationIn, hkeys.find?_put hproperty hkey]
  split_ifs
  · rfl
  · rfl

theorem enumerationIn_adjust (hroom : hasRoom properties property = true) (enumeration : Value) :
    enumerationIn (properties.adjust property (mapEntries (·.put (.str "enum") enumeration))) key =
      if property.isKey key then enumeration else enumerationIn properties key := by
  rw [enumerationIn, hkeys.find?_adjust hproperty hkey]
  split_ifs with hsame
  · rw [hasRoom, hkeys.find?_congr hproperty hkey hsame] at hroom
    cases hfound : properties.find? key with
    | none => simp [hfound] at hroom
    | some v =>
      cases v with
      | map label es => exact Entries.get_put_self es "enum" enumeration
      | _ => simp [hfound] at hroom
  · rfl

end Properties

theorem enumerationOf_tag (hschemas : JsonCollection schemas) {label : Option Nat}
    {properties : Entries} (hproperty : property.isJson = true) (hkey : key.isJson = true)
    (hproperties : propertiesOf? schemas (.str target) = some (.map label properties)) :
    enumerationOf (tag schemas properties (.str target) property value) other key =
      if target = other ∧ property.isKey key = true then tagEnumeration value
      else enumerationOf schemas other key := by
  have hkeys := hschemas.keys hproperties
  by_cases hother : other = target
  · subst hother
    have hbefore : enumerationOf schemas other key = enumerationIn properties key := by
      rw [enumerationOf, hproperties]
      rfl
    simp only [true_and]
    by_cases hroom : hasRoom properties property = true
    · rw [tag, if_pos hroom, hschemas.unlabelled.write_eq, enumerationOf,
        propertiesOf?_modifyAt_self, hproperties, hbefore,
        ← enumerationIn_adjust hkeys hproperty hkey hroom]
      simp only [modifyAt_cons]
      rfl
    · rw [tag, if_neg hroom, hschemas.unlabelled.write_eq, enumerationOf,
        propertiesOf?_modifyAt_self, hproperties, hbefore, ← enumerationIn_put hkeys hproperty hkey]
      rfl
  · rw [if_neg fun h => hother h.1.symm, tag]
    split_ifs
    all_goals rw [hschemas.unlabelled.write_eq, enumerationOf,
      propertiesOf?_modifyAt_of_ne hother, enumerationOf]

theorem JsonCollection.opened (h : JsonCollection schemas) (target : Scalar) :
    JsonCollection (opened schemas target) :=
  ⟨(narrowedApart_opened h.unlabelled target).2,
    throughout_opened Value.lasting_isJson rfl h.scalars target⟩

theorem isMap_get_opened (hschemas : schemas.Unlabelled) :
    ((opened schemas (.str target)).get other).isMap = (schemas.get other).isMap := by
  rw [Schema.opened]
  split
  · rfl
  · rw [hschemas.write_eq, isMap_get_modifyAt]

theorem isMap_get_tag (hschemas : schemas.Unlabelled) (properties : Entries) :
    ((tag schemas properties (.str target) key value).get other).isMap =
      (schemas.get other).isMap := by
  unfold tag
  split_ifs
  all_goals rw [hschemas.write_eq, isMap_get_modifyAt]

structure Enumerates (schemas : Entries) (target : String) (key : Scalar) (d : Tagging)
    (narrowed : Entries) : Prop where
  collection : JsonCollection narrowed
  isMap : (narrowed.get target).isMap = true
  property : d.target = target → ∃ property, d.property = .scalar property
  value : enumerationOf narrowed target key =
    ((d.valueAt? target key).map tagEnumeration).getD (enumerationOf schemas target key)

theorem Tagging.enumerates {d : Tagging} (hschemas : JsonCollection schemas)
    (hother : (schemas.get other).isMap = true)
    (hd : d.value.isJson = true ∧ d.property.Throughout (fun s => s.isJson = true) fun _ => True)
    (hkey : key.isJson = true) (h : d.narrow schemas = .ok narrowed) :
    Enumerates schemas other key d narrowed := by
  rw [Tagging.narrow] at h
  split at h
  · obtain ⟨label, properties, property, hproperties, hproperty, rfl⟩ := narrowTarget_ok h
    have hcanonical : property.isJson = true := by
      rw [hproperty] at hd
      exact Value.throughout_scalar.mp hd.2
    have hopened := hschemas.opened (.str d.target)
    refine ⟨⟨(narrowTarget_narrows hschemas.unlabelled h).2, narrowTarget_throughout
      Value.lasting_isJson rfl rfl hschemas.scalars hd.2 hd.1 h⟩, ?_, fun _ => ⟨_, hproperty⟩, ?_⟩
    · rwa [isMap_get_tag hopened.unlabelled, isMap_get_opened hschemas.unlabelled]
    · rw [enumerationOf_tag hopened hcanonical hkey hproperties,
        enumerationOf_opened hschemas.unlabelled, Tagging.valueAt?, hproperty]
      dsimp only
      split_ifs <;> rfl
  · rename_i hmissing
    cases h
    -- the tagging is passed over, so the schema, which is a mapping, is not its target
    have hne : d.target ≠ other := by
      rintro rfl
      rw [Entries.get, Entries.get?] at hother
      cases hfound : schemas.find? (.str d.target) with
      | none =>
        rw [hfound] at hother
        cases hother
      | some v =>
        rw [hfound] at hother
        cases v with
        | map label es => exact hmissing label es hfound
        | _ => cases hother
    refine ⟨hschemas, hother, fun h => absurd h hne, ?_⟩
    rw [Tagging.valueAt?]
    split
    · rw [if_neg fun h => hne h.1]
      rfl
    · rfl

end Step

section Run

variable {narrowed : Entries} {target : String} {key : Scalar}

/-- Of the taggings of a run that select a schema by a property, the last one decides. -/
theorem foldlM_enumerates {taggings : List Tagging} {schemas : Entries}
    (hschemas : JsonCollection schemas) (htarget : (schemas.get target).isMap = true)
    (htaggings : ∀ d ∈ taggings, d.value.isJson = true ∧
      d.property.Throughout (fun s => s.isJson = true) fun _ => True)
    (hkey : key.isJson = true) (h : taggings.foldlM Tagging.narrow schemas = .ok narrowed) :
    (∀ d ∈ taggings, d.target = target → ∃ property, d.property = .scalar property) ∧
      enumerationOf narrowed target key = ((lastValue? taggings target key).map
        tagEnumeration).getD (enumerationOf schemas target key) := by
  induction taggings generalizing schemas with
  | nil =>
    cases pure_eq_ok.mp h
    exact ⟨fun _ hd => (nomatch hd), rfl⟩
  | cons d taggings ih =>
    rw [List.foldlM_cons] at h
    obtain ⟨next, hnext, h⟩ := bind_eq_ok.mp h
    rw [List.forall_mem_cons] at htaggings
    have hstep := Tagging.enumerates hschemas htarget htaggings.1 hkey hnext
    obtain ⟨hproperties, hlast⟩ := ih hstep.collection hstep.isMap htaggings.2 h
    refine ⟨List.forall_mem_cons.mpr ⟨hstep.property, hproperties⟩, ?_⟩
    rw [hlast, hstep.value, lastValue?, lastValue?, List.filterMap_cons]
    cases d.valueAt? target key with
    | none => rfl
    | some value =>
      cases hrest : (taggings.filterMap (Tagging.valueAt? target key)).getLast? <;>
        simp [List.getLast?_cons, hrest]

theorem Tagging.exists_text {schemas : Entries} {d : Tagging}
    (hschemas : ∀ e ∈ schemas, e.2.isJson = true) (hd : d ∈ Tagging.ofSchemas schemas) :
    ∃ name, d.value = .str name := by
  obtain ⟨e, he, hd⟩ := List.mem_flatMap.mp hd
  have hschema := hschemas e he
  unfold Tagging.ofSchema at hd
  split at hd
  · rename_i label es hes
    rw [hes] at hschema
    split_ifs at hd
    · cases hd
    · obtain ⟨entry, hentry, hd⟩ := List.mem_filterMap.mp hd
      have hmapping := Value.isJson_get (Value.isJson_get hschema "discriminator") "mapping"
      rw [Tagging.ofPair?] at hd
      split at hd
      · obtain ⟨path, -, rfl⟩ := Option.map_eq_some_iff.mp hd
        exact (Value.isJson_members hmapping entry hentry).1
      · cases hd
  · cases hd

/-- A schema that a discriminator selects by several values of one property is left with the last of
them: that value is in the enumeration of the property, and no other one is. -/
theorem followDiscriminators_enumerates {v : Value} {d : Tagging} {s t : Log}
    (hv : v.isJson = true) (h : Returns (followDiscriminators v) s narrowed t)
    (hd : d ∈ Tagging.ofSchemas v.members) (htarget : (v.members.get d.target).isMap = true) :
    ∃ key last, d.property = .scalar key ∧
      lastValue? (Tagging.ofSchemas v.members) d.target key = some last ∧
      enumerationOf narrowed d.target key = tagEnumeration last ∧
      ((enumerationOf narrowed d.target key).holds d.value = .ok true ↔ d.value = last) := by
  have hmembers := (Value.throughout_of_isJson hv).members Value.lasting_isJson
  have hschemas : JsonCollection v.members :=
    ⟨Value.isUnlabelled_members (Value.isUnlabelled_of_isJson hv), hmembers⟩
  have htaggings (d : Tagging) (hd : d ∈ Tagging.ofSchemas v.members) :=
    Tagging.throughout Value.lasting_isJson (fun e he => (hmembers.2 e he).2) hd
  have hrun := followDiscriminators_returns h
  obtain ⟨key, hkey⟩ :=
    (foldlM_enumerates hschemas htarget htaggings (show Scalar.isJson .null = true from rfl)
      hrun).1 d hd rfl
  have hjson : key.isJson = true := by
    have hproperty := (htaggings d hd).2
    rw [hkey] at hproperty
    exact Value.throughout_scalar.mp hproperty
  have hlast := (foldlM_enumerates hschemas htarget htaggings hjson hrun).2
  have hvalue : d.valueAt? d.target key = some d.value := by
    rw [Tagging.valueAt?, hkey]
    exact if_pos ⟨rfl, (Scalar.isKey_iff hjson hjson).mpr rfl⟩
  have hmem : d.value ∈ (Tagging.ofSchemas v.members).filterMap (Tagging.valueAt? d.target key) :=
    List.mem_filterMap.mpr ⟨d, hd, hvalue⟩
  obtain ⟨last, hlast'⟩ := Option.isSome_iff_exists.mp
    (List.getLast?_isSome.mpr (List.ne_nil_of_mem hmem))
  have henumeration : enumerationOf narrowed d.target key = tagEnumeration last := by
    rw [hlast, lastValue?, hlast', Option.map_some, Option.getD_some]
  refine ⟨key, last, hkey, hlast', henumeration, ?_⟩
  obtain ⟨name, hname⟩ := Tagging.exists_text (fun e he => (Value.isJson_members hv e he).2) hd
  rw [henumeration, hname, tagEnumeration, Value.holds]
  simp only [List.any_cons, List.any_nil, Bool.or_false, Value.sameAs, if_true, Except.ok.injEq,
    Scalar.str_isKey]
  exact eq_comm

end Run

section Examples

def petKinds : Value :=
  .ofEntries [
    (.str "Pet", .ofEntries [(.str "discriminator", .ofEntries [
      (.str "propertyName", .str "kind"),
      (.str "mapping", .ofEntries [
        (.str "cat", .str "#/components/schemas/Cat"),
        (.str "kitty", .str "#/components/schemas/Cat")])])]),
    (.str "Cat", .ofEntries [(.str "type", .str "object")])]

def catTagging : Tagging := ⟨"Cat", .str "kind", .str "cat"⟩

theorem catTagging_mem : catTagging ∈ Tagging.ofSchemas petKinds.members := by
  have htaggings : Tagging.ofSchemas petKinds.members =
      [catTagging, ⟨"Cat", .str "kind", .str "kitty"⟩] := by
    rfl
  rw [htaggings]
  exact List.mem_cons_self

theorem followDiscriminators_enumerates_petKinds : petKinds.isJson = true ∧
    catTagging ∈ Tagging.ofSchemas petKinds.members ∧
    (petKinds.members.get catTagging.target).isMap = true ∧
    ∃ narrowed log, Returns (followDiscriminators petKinds) [] narrowed log ∧
      enumerationOf narrowed "Cat" (.str "kind") = tagEnumeration (.str "kitty") := by
  have hjson : petKinds.isJson = true := by decide
  have htarget : (petKinds.members.get catTagging.target).isMap = true := by decide
  obtain ⟨narrowed, log, hrun⟩ : ∃ narrowed log,
      (followDiscriminators petKinds).run.run [] = (.ok narrowed, log) :=
    exists_of_isSome (by decide +kernel)
  obtain ⟨key, last, hkey, hlast, henumeration, -⟩ :=
    followDiscriminators_enumerates hjson hrun catTagging_mem htarget
  cases hkey
  cases hlast.symm.trans (show _ = some (Scalar.str "kitty") by decide)
  exact ⟨hjson, catTagging_mem, htarget, narrowed, log, hrun, henumeration⟩

/-- A value of a mapping can be missing from the enumeration of its target. -/
theorem not_enumerates_petKinds :
    ¬ ∀ (v : Value) (narrowed : Entries) (s t : Log) (d : Tagging), v.isJson = true →
      Returns (followDiscriminators v) s narrowed t → d ∈ Tagging.ofSchemas v.members →
      (v.members.get d.target).isMap = true → ∃ key, d.property = .scalar key ∧
        (enumerationOf narrowed d.target key).holds d.value = .ok true := by
  intro hclaim
  obtain ⟨narrowed, log, hrun, hmissing⟩ : ∃ narrowed log,
      (followDiscriminators petKinds).run.run [] = (.ok narrowed, log) ∧
        ((enumerationOf narrowed "Cat" (.str "kind")).holds (.str "cat")).toOption = some false :=
    exists_of_map_eq_some (by decide +kernel)
  obtain ⟨key, hkey, hholds⟩ := hclaim petKinds narrowed [] log catTagging (by decide) hrun
    catTagging_mem (by decide)
  cases hkey
  rw [show catTagging.value = .str "cat" from rfl,
    show catTagging.target = "Cat" from rfl] at hholds
  rw [hholds] at hmissing
  cases hmissing

end Examples

end ApiBindings.Schema
