import ApiBindings.Proofs.Declaration.Alike
import ApiBindings.Proofs.Document.Labels
import ApiBindings.Proofs.Schema.Tagging
import ApiBindings.Proofs.Schema.Unshared

/-!
Following discriminators where places share mappings. Main statement: if every mapping that is
written to stands at one place of the collection, then the collection is narrowed as its tree is.
-/

namespace ApiBindings.Schema

open Value (entryLabels)

def roomLabels (properties : Entries) (key : Scalar) : List Nat :=
  match properties.find? key with
  | some (.map label es) => if (reference? es).isNone then label.toList else []
  | _ => []

def propertyLabels (schema : Entries) (key : Scalar) : List Nat :=
  match schema.get? "properties" with
  | some (.map label properties) => label.toList ++ roomLabels properties key
  | _ => []

/-- The labels of the mappings that are written to when a property of the target is narrowed. -/
def writtenLabels (schemas : Entries) (target : String) (key : Scalar) : List Nat :=
  match schemas.get? target with
  | some (.map label schema) => label.toList ++ propertyLabels schema key
  | _ => []

def Solitary (schemas : Entries) (target : String) (key : Scalar) : Prop :=
  ∀ label ∈ writtenLabels schemas target key, (entryLabels schemas).count label ≤ 1

/-- Nothing is shared that was not shared, and nothing else is written to by what follows. -/
structure Loosens (schemas next : Entries) : Prop where
  labels : (entryLabels next).Sublist (entryLabels schemas)
  written : ∀ target key,
    (writtenLabels next target key).Sublist (writtenLabels schemas target key)

namespace Loosens

variable {schemas next last : Entries}

theorem refl (schemas : Entries) : Loosens schemas schemas :=
  ⟨.refl _, fun _ _ => .refl _⟩

theorem trans (h : Loosens schemas next) (h' : Loosens next last) : Loosens schemas last :=
  ⟨h'.labels.trans h.labels, fun target key => (h'.written target key).trans (h.written target key)⟩

theorem solitary (h : Loosens schemas next) {target : String} {key : Scalar}
    (hs : Solitary schemas target key) : Solitary next target key := fun label hlabel =>
  Nat.le_trans (h.labels.count_le label) (hs label ((h.written target key).subset hlabel))

theorem modifyAt {path : List Scalar} {f : Entries → Entries}
    (hlabels : ∀ es, (entryLabels (f es)).Sublist (entryLabels es))
    (hwritten : ∀ (es : Entries) key,
      (propertyLabels (es.modifyAt path f) key).Sublist (propertyLabels es key))
    (schemas : Entries) (target : String) :
    Loosens schemas (schemas.modifyAt (.str target :: path) f) := by
  refine ⟨Entries.labels_modifyAt hlabels schemas _, fun other key => ?_⟩
  rw [Entries.modifyAt, writtenLabels, writtenLabels]
  by_cases hother : other = target
  · rw [hother, Entries.get?_adjust_self]
    cases schemas.get? target with
    | none => exact .refl _
    | some v =>
      cases v with
      | map label es => exact (hwritten es key).append_left _
      | _ => exact .refl _
  · rw [Entries.get?_adjust_of_ne hother]

end Loosens

section Properties

variable (es : Entries) (key value : Scalar)

theorem propertyLabels_put_properties :
    (propertyLabels (es.put (.str "properties") (.ofEntries [])) key).Sublist
      (propertyLabels es key) := by
  rw [propertyLabels, Entries.get?_put_self]
  exact List.nil_sublist _

theorem propertyLabels_modifyAt {path : List Scalar} {f : Entries → Entries}
    (h : ∀ ps : Entries, (roomLabels (ps.modifyAt path f) key).Sublist (roomLabels ps key)) :
    (propertyLabels (es.modifyAt (.str "properties" :: path) f) key).Sublist
      (propertyLabels es key) := by
  rw [Entries.modifyAt, propertyLabels, propertyLabels, Entries.get?_adjust_self]
  cases es.get? "properties" with
  | none => exact .refl _
  | some v =>
    cases v with
    | map label ps => exact (h ps).append_left _
    | _ => exact .refl _

theorem roomLabels_put (other : Scalar) :
    (roomLabels (es.put other (.ofEntries [(.str "enum", tagEnumeration value)])) key).Sublist
      (roomLabels es key) := by
  rw [roomLabels, roomLabels]
  rcases es.find?_put_cases other (.ofEntries [(.str "enum", tagEnumeration value)]) key with h | h
  · rw [h]
    exact List.nil_sublist _
  · rw [h]

theorem roomLabels_modifyAt (other : Scalar) :
    (roomLabels (es.modifyAt [other] (·.put (.str "enum") (tagEnumeration value))) key).Sublist
      (roomLabels es key) := by
  have hreference (inner : Entries) (v : Value) :
      reference? (inner.put (.str "enum") v) = reference? inner := by
    rw [reference?, reference?, Entries.get_put_of_ne (by decide)]
  rw [Entries.modifyAt, roomLabels, roomLabels]
  rcases es.find?_adjust_cases other _ key with h | h
  · rw [h]
  · rw [h]
    cases es.find? key with
    | none => exact .refl _
    | some v =>
      cases v with
      | map label inner =>
        simp only [Option.map_some, Entries.modifyAt, hreference]
        exact .refl _
      | _ => exact .refl _

end Properties

section NarrowTarget

variable {schemas : Entries} {target : String}

theorem propertiesOf?_unshared (schemas : Entries) (target : Scalar) :
    propertiesOf? schemas.unshared target = (propertiesOf? schemas target).map .unshared := by
  rw [propertiesOf?, propertiesOf?, Entries.find?_unshared]
  cases schemas.find? target with
  | none => rfl
  | some v =>
    cases v with
    | map label es =>
      rw [Option.map_some, Value.unshared_map]
      exact Entries.find?_unshared es _
    | _ => simp

theorem hasRoom_unshared (properties : Entries) (key : Scalar) :
    hasRoom properties.unshared key = hasRoom properties key := by
  rw [hasRoom, hasRoom, Entries.find?_unshared]
  cases properties.find? key with
  | none => rfl
  | some v => cases v <;> simp

/-- What is written on the way to a solitary property is written at the end of its path. -/
theorem write_solitary {key : Scalar} (hs : Solitary schemas target key) (path : List Scalar)
    (name : Scalar) (v : Value)
    (hlast : ∀ label rest, schemas.lastLabel? path = some (label, rest) →
      label ∈ writtenLabels schemas target key) (hv : v.unshared = v) :
    schemas.write path (·.put name v) = schemas.modifyAt path (·.put name v) ∧
      (schemas.write path (·.put name v)).unshared =
        schemas.unshared.write path (·.put name v) := by
  have hput (es : Entries) : (es.put name v).unshared = es.unshared.put name v := by
    rw [Entries.put_unshared, hv]
  rw [Entries.write_eq_modifyAt fun label rest h => hs label (hlast label rest h),
    schemas.unlabelled_unshared.write_eq]
  exact ⟨rfl, schemas.modifyAt_unshared hput path⟩

section LastLabel

variable {path rest : List Scalar} {key : Scalar} {label : Nat}

theorem lastLabel?_mem_writtenLabels
    (hpath : ∀ schema : Entries, propertiesOf? schemas (.str target) = schema.get? "properties" →
      schema.lastLabel? path = some (label, rest) → label ∈ propertyLabels schema key)
    (h : schemas.lastLabel? (.str target :: path) = some (label, rest)) :
    label ∈ writtenLabels schemas target key := by
  obtain ⟨l, schema, hfound, hlast⟩ := Entries.lastLabel?_cons h
  rw [writtenLabels, Entries.get?, hfound]
  rcases hlast with hinner | ⟨-, rfl, -⟩
  · refine List.mem_append_right _ (hpath schema ?_ hinner)
    rw [propertiesOf?, hfound]
    rfl
  · exact List.mem_append_left _ (Option.mem_toList.mpr rfl)

theorem lastLabel?_mem_propertyLabels {schema : Entries}
    (hpath : ∀ (l : Option Nat) (properties : Entries),
      schema.get? "properties" = some (.map l properties) →
      properties.lastLabel? path = some (label, rest) → label ∈ roomLabels properties key)
    (h : schema.lastLabel? (.str "properties" :: path) = some (label, rest)) :
    label ∈ propertyLabels schema key := by
  obtain ⟨l, properties, hfound, hlast⟩ := Entries.lastLabel?_cons h
  rw [propertyLabels, Entries.get?, hfound]
  rcases hlast with hinner | ⟨-, rfl, -⟩
  · exact List.mem_append_right _ (hpath l properties hfound hinner)
  · exact List.mem_append_left _ (Option.mem_toList.mpr rfl)

theorem lastLabel?_mem_roomLabels {properties : Entries} (hroom : hasRoom properties key = true)
    (h : properties.lastLabel? [key] = some (label, rest)) : label ∈ roomLabels properties key := by
  obtain ⟨l, es, hfound, hlast⟩ := Entries.lastLabel?_cons h
  rw [hasRoom, hfound] at hroom
  rw [roomLabels, hfound]
  dsimp only at hroom ⊢
  rw [if_pos hroom]
  rcases hlast with hinner | ⟨-, rfl, -⟩
  · cases hinner
  · exact Option.mem_toList.mpr rfl

end LastLabel

variable {key : Scalar} (hs : Solitary schemas target key)
include hs

theorem opened_solitary : Loosens schemas (opened schemas (.str target)) ∧
    (opened schemas (.str target)).unshared = opened schemas.unshared (.str target) := by
  unfold opened
  rw [propertiesOf?_unshared]
  cases propertiesOf? schemas (.str target) with
  | some v => exact ⟨.refl _, rfl⟩
  | none =>
    obtain ⟨hwrite, htree⟩ := write_solitary hs [.str target] (.str "properties") (.ofEntries [])
      (fun label rest => lastLabel?_mem_writtenLabels fun _ _ h => nomatch h)
      (Value.unshared_map none [])
    refine ⟨?_, htree⟩
    dsimp only
    rw [hwrite]
    refine .modifyAt (fun es => Entries.labels_put rfl es _) (fun es key => ?_) schemas target
    exact propertyLabels_put_properties es key

theorem tag_solitary {label : Option Nat} {properties : Entries}
    (hproperties : propertiesOf? schemas (.str target) = some (.map label properties))
    (value : Scalar) :
    Loosens schemas (tag schemas properties (.str target) key value) ∧
      (tag schemas properties (.str target) key value).unshared =
        tag schemas.unshared properties.unshared (.str target) key value := by
  have henumeration : (tagEnumeration value).unshared = tagEnumeration value := by
    simp [tagEnumeration]
  have hfresh : (Value.ofEntries [(.str "enum", tagEnumeration value)]).unshared =
      .ofEntries [(.str "enum", tagEnumeration value)] := by
    simp [Value.ofEntries, henumeration]
  unfold tag
  rw [hasRoom_unshared]
  -- the enumeration goes into the property, or a property of its own takes the place
  split_ifs with hroom
  · obtain ⟨hwrite, htree⟩ := write_solitary hs [.str target, .str "properties", key]
      (.str "enum") (tagEnumeration value)
      (fun label rest => lastLabel?_mem_writtenLabels fun schema hschema =>
        lastLabel?_mem_propertyLabels fun l ps hps => by
          rw [hproperties, hps] at hschema
          cases hschema
          exact lastLabel?_mem_roomLabels hroom)
      henumeration
    refine ⟨?_, htree⟩
    rw [hwrite]
    refine .modifyAt (fun es => Entries.labels_put rfl es _) (fun es other => ?_) schemas target
    exact propertyLabels_modifyAt es other fun ps => roomLabels_modifyAt ps other value key
  · obtain ⟨hwrite, htree⟩ := write_solitary hs [.str target, .str "properties"] key
      (.ofEntries [(.str "enum", tagEnumeration value)])
      (fun label rest => lastLabel?_mem_writtenLabels fun schema _ =>
        lastLabel?_mem_propertyLabels fun l ps _ h => by cases h)
      hfresh
    refine ⟨?_, htree⟩
    rw [hwrite]
    refine .modifyAt (fun es => Entries.labels_put rfl es _) (fun es other => ?_) schemas target
    exact propertyLabels_modifyAt es other fun ps => roomLabels_put ps other value key

omit hs in
theorem propertiesOf?_opened {label : Option Nat} {es : Entries}
    (htarget : schemas.get? target = some (.map label es)) :
    propertiesOf? (opened schemas (.str target)) (.str target) =
      some ((propertiesOf? schemas (.str target)).getD (.ofEntries [])) := by
  unfold opened
  cases hproperties : propertiesOf? schemas (.str target) with
  | some v => rw [Option.getD_some, hproperties]
  | none =>
    rw [Entries.get?] at htarget
    dsimp only
    rw [Entries.write, Entries.lastLabel?, htarget]
    cases label with
    | none =>
      dsimp only [Entries.lastLabel?, Option.map_none]
      rw [propertiesOf?, Entries.modifyAt, Entries.find?_adjust_self, htarget]
      exact Entries.get?_put_self es "properties" _
    | some l =>
      dsimp only [Entries.lastLabel?, Option.map_some]
      rw [propertiesOf?, Entries.find?_changeEntries, htarget, Option.map_some, Value.change,
        if_pos rfl]
      exact Entries.get?_put_self es "properties" _

end NarrowTarget

section Follow

variable {schemas source : Entries} {target : String} {property : Value} {value : Scalar}

theorem narrowTarget_loosens {next : Entries}
    (hs : ∀ key, property = .scalar key → Solitary schemas target key)
    (h : narrowTarget schemas (.str target) property value = .ok next) : Loosens schemas next := by
  obtain ⟨label, properties, key, hproperties, hkey, rfl⟩ := narrowTarget_ok h
  have hopened := (opened_solitary (hs key hkey)).1
  exact hopened.trans (tag_solitary (hopened.solitary (hs key hkey)) hproperties _).1

theorem narrowTarget_unshared {label : Option Nat} {es : Entries}
    (htarget : schemas.get? target = some (.map label es))
    (hs : ∀ key, property = .scalar key → Solitary schemas target key) :
    narrowTarget schemas.unshared (.str target) property.unshared value =
      Entries.unshared <$> narrowTarget schemas (.str target) property value := by
  have htree : schemas.unshared.get? target = some (.map none es.unshared) := by
    rw [Entries.get?_unshared, htarget, Option.map_some, Value.unshared_map]
  have hempty : Value.ofEntries [] = (Value.ofEntries []).unshared :=
    (Value.unshared_map none []).symm
  have hproperties := propertiesOf?_opened htarget
  rw [narrowTarget_eq, narrowTarget_eq, propertiesOf?_opened htree, hproperties,
    propertiesOf?_unshared, hempty, Option.getD_map, ← hempty]
  simp only [Option.getD_some, Value.entries_unshared, Value.expectKey_unshared, bind_map_left,
    map_bind]
  cases hfound : (propertiesOf? schemas (.str target)).getD (.ofEntries []) with
  | map l properties =>
    rw [hfound] at hproperties
    cases property with
    | scalar key =>
      obtain ⟨hloosens, hopened⟩ := opened_solitary (hs key rfl)
      have htag := (tag_solitary (hloosens.solitary (hs key rfl)) hproperties value).2
      rw [hopened] at htag
      exact congrArg Except.ok htag.symm
    | _ => rfl
  | _ => rfl

def Discriminator.unshared (d : Discriminator) : Discriminator :=
  { d with property := d.property.unshared }

def Tracks (source schemas tree : Entries) : Prop :=
  Loosens source schemas ∧ tree = schemas.unshared

def Tagging.Solitary (source : Entries) (d : Tagging) : Prop :=
  ∀ key, d.property = .scalar key → Schema.Solitary source d.target key

theorem followMapping_alike {d : Discriminator} {tree : Entries} {ref : Value}
    (hs : ∀ e, Tagging.ofPair? d.property (value, ref) = some e → e.Solitary source)
    (h : Tracks source schemas tree) :
    Alike (Tracks source) (followMapping d schemas value ref)
      (followMapping d.unshared tree value ref.unshared) := by
  obtain ⟨hloosens, rfl⟩ := h
  unfold followMapping
  rw [Value.expectText_unshared]
  refine .after fun _ text _ htext => ?_
  cases Value.expectText_ok (returns_lift.mp htext).1
  cases hpath : Text.dropStart? schemasRoot text with
  | none => exact .throw _
  | some path =>
    have hsolitary := hs ⟨Pointer.unescape path, d.property, value⟩
      (by simp [Tagging.ofPair?, hpath])
    simp only [Discriminator.unshared, Value.text_unshared, Entries.find?_unshared]
    cases htarget : schemas.find? (.str (Pointer.unescape path)) with
    | none => exact .after fun _ _ _ _ => .pure ⟨hloosens, rfl⟩
    | some v =>
      cases v with
      | map label es =>
        have hstep key (hkey : d.property = .scalar key) :
            Schema.Solitary schemas (Pointer.unescape path) key :=
          hloosens.solitary (hsolitary key hkey)
        simp only [Option.map_some, Value.unshared_map, narrowTarget_unshared htarget hstep,
          liftM_map]
        refine .bind (R := Tracks source) (.of_map rfl fun _ next _ hnext => ?_) fun _ _ hnext => ?_
        · exact ⟨hloosens.trans (narrowTarget_loosens hstep (returns_lift.mp hnext).1), rfl⟩
        · exact .after fun _ _ _ _ => .pure hnext
      | _ =>
        simp only [Option.map_some, Value.unshared_scalar, Value.unshared_list,
          Value.unshared_set, Value.unshared_pair]
        exact .after fun _ _ _ _ => .pure ⟨hloosens, rfl⟩

theorem followSchema_alike {name : Scalar} {schema : Value} {tree : Entries}
    (hs : ∀ d ∈ Tagging.ofSchema schema, d.Solitary source) (h : Tracks source schemas tree) :
    Alike (Tracks source) (followSchema schemas name schema)
      (followSchema tree name schema.unshared) := by
  cases schema with
  | map label es =>
    rw [Value.unshared_map, followSchema, followSchema, reference?_unshared, Option.isSome_map]
    rw [Tagging.ofSchema] at hs
    split_ifs at hs ⊢
    · exact .pure h
    · simp only [Entries.get_unshared, Value.entriesOrNone_unshared, liftM_map, bind_map_left,
        Value.isFilled_unshared, Value.entries_unshared]
      refine .after fun _ discriminator _ hdiscriminator => ?_
      cases Value.entriesOrNone_ok (returns_lift.mp hdiscriminator).1
      split_ifs
      · refine .after fun _ mapping _ hmapping => ?_
        cases Value.entries_ok (returns_lift.mp hmapping).1
        refine .foldlM (fun schemas tree e he h => ?_) h
        refine followMapping_alike (fun d hd => hs d ?_) h
        exact List.mem_filterMap.mpr ⟨e, he, hd⟩
      · exact .pure h
  | _ =>
    simp only [Value.unshared_scalar, Value.unshared_list, Value.unshared_set, Value.unshared_pair,
      followSchema]
    exact .pure h

/-- A collection is narrowed as its tree is, and the same is told of it, unless a discriminator
writes to a mapping that stands at several places. -/
theorem followDiscriminators_alike {v : Value}
    (hs : ∀ d ∈ Tagging.ofSchemas v.members, d.Solitary v.members) :
    Alike (fun schemas tree => tree = schemas.unshared) (followDiscriminators v)
      (followDiscriminators v.unshared) := by
  simp only [followDiscriminators, Value.entriesOrNone_unshared, liftM_map, bind_map_left]
  refine .after fun _ source _ hsource => ?_
  cases Value.entriesOrNone_ok (returns_lift.mp hsource).1
  refine .mono (fun _ _ h => h.2) (.foldlM (R := Tracks v.members) (fun schemas tree e he h => ?_)
    ⟨.refl _, rfl⟩)
  exact followSchema_alike (fun d hd => hs d (List.mem_flatMap.mpr ⟨e, he, hd⟩)) h

end Follow

end ApiBindings.Schema
