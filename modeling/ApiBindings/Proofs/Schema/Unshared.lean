import ApiBindings.Naming.DocComment
import ApiBindings.Proofs.Document.Unshared
import ApiBindings.Proofs.Schema.Part

/-!
Types do not depend on sharing. Main statements: a schema, and the body of a request or a response,
has the type of its tree, or fails as its tree does.
-/

namespace ApiBindings

namespace Naming

@[simp]
theorem docCommentOf_unshared (description : Value) (tab : Nat) :
    docCommentOf description.unshared tab = docCommentOf description tab := by
  simp [docCommentOf]

end Naming

theorem TypeExpr.ofEnum_unshared (values : Value) (asText : Bool) :
    ofEnum values.unshared asText = ofEnum values asText := by
  have htext {text : String} (t : String) (h : t = text) :
      (if asText then Text.quote t else t) = if asText then Text.quote text else text := by
    rw [h]
  have htoken (v : Value) : literalToken asText v.unshared = literalToken asText v := by
    cases v with
    | scalar s => rw [Value.unshared_scalar]
    | list items => simpa [literalToken] using htext _ (Value.list items).text_unshared
    | map label es => simpa [literalToken] using htext _ (Value.map label es).text_unshared
    | set ms => rw [Value.unshared_set]
    | pair a b => simpa [literalToken] using htext _ (Value.pair a b).text_unshared
  simp [ofEnum, Function.comp_def, htoken]

namespace Schema

section Keywords

variable (es : Entries) (v : Value)

@[simp]
theorem reference?_unshared : reference? es.unshared = (reference? es).map Value.unshared := by
  rw [reference?, Entries.get_unshared, Value.filled?_unshared, reference?]

@[simp]
theorem referencedType_unshared (location : Option String) :
    referencedType v.unshared location = referencedType v location := by
  rw [referencedType, Value.expectText_unshared, referencedType]

theorem kind_unshared : Kind.of v.unshared = Kind.of v := by
  cases v <;> simp [Kind.of]

theorem isComposition_unshared : isComposition es.unshared = isComposition es := by
  simp [isComposition]

theorem enumOr_unshared (asText : Bool) (t : TypeExpr) :
    enumOr es.unshared asText t = enumOr es asText t := by
  simp [enumOr, TypeExpr.ofEnum_unshared]

theorem withRequired_unshared (t : TypeExpr) : withRequired t v.unshared = withRequired t v := by
  simp [withRequired, List.mapM_map, Function.comp_def]

theorem isGiven_unshared : isGiven v.unshared = isGiven v := by
  cases v <;> simp [isGiven]

theorem admitsAnything_unshared : admitsAnything v.unshared = admitsAnything v := by
  cases v with
  | map label es => cases es <;> simp [admitsAnything]
  | _ => simp [admitsAnything]

theorem inlineDescription_unshared :
    inlineDescription v.unshared = (inlineDescription v).unshared := by
  cases v with
  | map label es =>
    rw [Value.unshared_map, inlineDescription, inlineDescription, reference?_unshared,
      Option.isSome_map]
    split_ifs
    · rw [Value.unshared_scalar]
    · exact Entries.get_unshared es _
  | _ => simp [inlineDescription]

end Keywords

section Equations

variable (es : Entries) (location : String)

theorem arrayType_eq : arrayType es location =
    match es.get? "items" with
    | none => .error (.located .missingItems location)
    | some (.scalar .null) => .error (.located .missingItems location)
    | some items => do
      let item ← typeOf items (location ++ "/items")
      let least := es.get "minItems"
      let greatest := es.get "maxItems"
      if least.isFilled && greatest.isFilled && least.equals greatest then
        return .tuple item (← least.integerField)
      else return .array item := by
  rw [arrayType]
  split <;> simp_all

theorem memberTypes_eq (key : String) : memberTypes es key location =
    match es.get? key with
    | none => .ok []
    | some (.list items) => itemTypes items (location ++ "/" ++ key) 0
    | some members => do return (← members.elements).map fun _ => .any := by
  rw [memberTypes]
  split <;> simp_all

theorem propertyTypes_eq : propertyTypes es location =
    match es.get? "properties" with
    | none => .ok []
    | some (.map _ properties) =>
      fieldTypes properties (((es.get "required").filled?).getD (.list []))
        (location ++ "/properties/")
    | some properties =>
      if properties.isFilled then .error (.misuse .noSuchOperation) else .ok [] := by
  rw [propertyTypes]
  split <;> simp_all

theorem indexType_eq : indexType es location =
    match es.get? "additionalProperties" with
    | none => .ok none
    | some (.scalar (.bool true)) => .ok (some .any)
    | some additional =>
      if isGiven additional then do
        return some (← typeOf additional (location ++ "/additionalProperties"))
      else .ok none := by
  rw [indexType]
  split <;> simp_all

end Equations

def TypesAlike (schema : Value) : Prop :=
  ∀ location, typeOf schema.unshared location = typeOf schema location

theorem itemTypes_unshared {items : List Value} (h : ∀ s ∈ items, TypesAlike s)
    (location : String) (index : Nat) :
    itemTypes (items.map Value.unshared) location index = itemTypes items location index := by
  induction items generalizing index with
  | nil => rfl
  | cons item rest ih =>
    rw [List.map_cons, itemTypes, itemTypes, h item List.mem_cons_self,
      ih fun s hs => h s (List.mem_cons_of_mem item hs)]

theorem fieldTypes_unshared {properties : Entries} (h : ∀ p ∈ properties, TypesAlike p.2)
    (required : Value) (location : String) :
    fieldTypes properties.unshared required.unshared location =
      fieldTypes properties required location := by
  induction properties with
  | nil =>
    rw [Entries.unshared_nil, fieldTypes, fieldTypes]
  | cons p rest ih =>
    obtain ⟨key, schema⟩ := p
    rw [Entries.unshared_cons, fieldTypes, fieldTypes, h _ List.mem_cons_self,
      Value.holds_unshared, inlineDescription_unshared, Value.optionalTextField_unshared,
      ih fun q hq => h q (List.mem_cons_of_mem _ hq)]

section Parts

variable {es : Entries} (h : ∀ s, Part es s → TypesAlike s)
include h

theorem arrayType_unshared (location : String) :
    arrayType es.unshared location = arrayType es location := by
  rw [arrayType_eq, arrayType_eq]
  simp only [Entries.get_unshared, Entries.get?_unshared, Value.isFilled_unshared,
    Value.equals_unshared, Value.integerField_unshared]
  cases hitems : es.get? "items" with
  | none => rfl
  | some items =>
    have hitem := h _ (.items hitems) (location ++ "/items")
    cases items with
    | scalar s => rw [Option.map_some, Value.unshared_scalar]
    | _ => simp_all

theorem memberTypes_unshared {key : String} (hkey : key ∈ compositionKeys) (location : String) :
    memberTypes es.unshared key location = memberTypes es key location := by
  rw [memberTypes_eq, memberTypes_eq, Entries.get?_unshared]
  cases hmembers : es.get? key with
  | none => rfl
  | some members =>
    cases members with
    | list items =>
      rw [Option.map_some, Value.unshared_list]
      exact itemTypes_unshared (fun s hs => h s (.member hkey hmembers hs)) _ _
    | map label inner => simp [Value.elements]
    | pair a b => simp [Value.elements]
    | _ => simp

theorem propertyTypes_unshared (location : String) :
    propertyTypes es.unshared location = propertyTypes es location := by
  have hrequired : ((es.get "required").unshared.filled?).getD (.list []) =
      (((es.get "required").filled?).getD (.list [])).unshared := by
    rw [Value.filled?_unshared]
    cases (es.get "required").filled? with
    | none => simp
    | some required => rfl
  rw [propertyTypes_eq, propertyTypes_eq, Entries.get?_unshared, Entries.get_unshared, hrequired]
  cases hproperties : es.get? "properties" with
  | none => rfl
  | some properties =>
    cases properties with
    | map label inner =>
      rw [Option.map_some, Value.unshared_map]
      exact fieldTypes_unshared (fun p hp => h p.2 (.property hproperties hp)) _ _
    | list items =>
      have hfilled := (Value.list items).isFilled_unshared
      rw [Value.unshared_list] at hfilled
      rw [Option.map_some, Value.unshared_list]
      dsimp only
      rw [hfilled]
    | pair a b => simp [Value.isFilled]
    | _ => simp

theorem indexType_unshared (location : String) :
    indexType es.unshared location = indexType es location := by
  rw [indexType_eq, indexType_eq, Entries.get?_unshared]
  cases hadditional : es.get? "additionalProperties" with
  | none => rfl
  | some additional =>
    have htype := h _ (.additional hadditional) (location ++ "/additionalProperties")
    have hgiven := isGiven_unshared additional
    cases additional with
    | scalar s => rw [Option.map_some, Value.unshared_scalar]
    | _ => simp_all

theorem objectType_unshared (location : String) :
    objectType es.unshared location = objectType es location := by
  have hmembers (key : String) (hkey : key ∈ compositionKeys) :=
    memberTypes_unshared h hkey location
  rw [objectType, objectType, reference?_unshared]
  cases reference? es with
  | some ref => exact referencedType_unshared ref _
  | none =>
    have hobject : ((es.get "type").unshared).equals (.str "object") =
        (es.get "type").equals (.str "object") := by
      rw [← Value.equals_unshared (es.get "type"), Value.unshared_scalar]
    simp only [Option.map_none, Entries.get_unshared, Value.isFilled_unshared,
      isGiven_unshared, admitsAnything_unshared, withRequired_unshared, hobject,
      hmembers "allOf" (by simp), hmembers "anyOf" (by simp),
      hmembers "oneOf" (by simp), propertyTypes_unshared h, indexType_unshared h]
    -- whether the type and the properties are null is read off their constructors
    cases es.get "type" <;> cases es.get "properties" <;>
      simp only [Value.unshared_scalar, Value.unshared_list, Value.unshared_map,
        Value.unshared_set, Value.unshared_pair]

theorem mappingType_unshared_of_parts (location : String) :
    mappingType es.unshared location = mappingType es location := by
  rw [mappingType, mappingType]
  simp only [Entries.get_unshared, Value.isFilled_unshared, kind_unshared, enumOr_unshared,
    TypeExpr.ofEnum_unshared, isComposition_unshared, arrayType_unshared h, objectType_unshared h]

end Parts

theorem typesAlike (schema : Value) : TypesAlike schema := by
  intro location
  match schema with
  | .map label es =>
    rw [Value.unshared_map, typeOf, typeOf, reference?_unshared]
    cases reference? es with
    | some ref => exact referencedType_unshared ref _
    | none =>
      refine mappingType_unshared_of_parts (fun s hs => ?_) location
      have := hs.sizeOf_lt
      exact typesAlike s
  | .scalar s => rw [Value.unshared_scalar]
  | .list items => rw [Value.unshared_list, typeOf, typeOf] <;> simp
  | .set ms => rw [Value.unshared_set]
  | .pair a b => rw [Value.unshared_pair, typeOf, typeOf] <;> simp
termination_by sizeOf schema
decreasing_by
  simp only [Value.map.sizeOf_spec]
  omega

/-- Sharing does not decide on a type, nor on the fault of a schema without one. -/
@[simp]
theorem typeOf_unshared (schema : Value) (location : String) :
    typeOf schema.unshared location = typeOf schema location :=
  typesAlike schema location

@[simp]
theorem mappingType_unshared (es : Entries) (location : String) :
    mappingType es.unshared location = mappingType es location :=
  mappingType_unshared_of_parts (fun s _ => typesAlike s) location

theorem findMedia?_unshared (start : String) (content : Entries) :
    findMedia? start content.unshared =
      Option.map (fun e => (e.1, e.2.unshared)) <$> findMedia? start content := by
  induction content with
  | nil => rfl
  | cons e rest ih =>
    obtain ⟨key, media⟩ := e
    rw [Entries.unshared_cons, findMedia?, findMedia?, map_bind]
    refine bind_congr fun name => ?_
    split_ifs
    · rfl
    · exact ih

theorem selectMedia?_unshared (content : Entries) (starts : List String) :
    selectMedia? content.unshared starts =
      Option.map (fun e => (e.1, e.2.unshared)) <$> selectMedia? content starts := by
  induction starts with
  | nil => rfl
  | cons start rest ih =>
    rw [selectMedia?, selectMedia?, findMedia?_unshared, bind_map_left, map_bind]
    refine bind_congr fun found => ?_
    cases found with
    | none => exact ih
    | some found => rfl

@[simp]
theorem contentType_unshared (body : Value) (location : String) :
    contentType body.unshared location = contentType body location := by
  cases body with
  | map label es =>
    rw [Value.unshared_map, contentType, contentType, reference?_unshared]
    cases reference? es with
    | some ref => exact referencedType_unshared ref _
    | none =>
      simp only [Option.map_none, Entries.get_unshared, Value.isFilled_unshared,
        Value.entries_unshared, bind_map_left, selectMedia?_unshared]
      split_ifs
      · refine bind_congr fun content => bind_congr fun found => ?_
        cases found with
        | none => rfl
        | some found => simp
      · rfl
  | _ => simp [contentType]

theorem contentUnion_unshared (bodies : Entries) (location : String) :
    contentUnion bodies.unshared location = contentUnion bodies location := by
  rw [contentUnion, contentUnion, Entries.unshared, List.mapM_map]
  simp only [Function.comp_def, contentType_unshared]

end Schema

end ApiBindings
