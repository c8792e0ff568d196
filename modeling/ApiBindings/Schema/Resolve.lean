import ApiBindings.Schema.Reference
import ApiBindings.TypeExpr.Alternatives
import ApiBindings.Document.Lax

/-!
The type of a schema. A reference is the type it names; a mapping is read by its `type` keyword,
with enumerations, compositions and null on top; every other value stands for any type. Faults
carry the path of keywords that leads to them.
-/

namespace ApiBindings.Schema

inductive Kind where
  | absent
  | numeric
  | textual
  | boolean
  | array
  | null
  | object
  | other
deriving DecidableEq

namespace Kind

def numericNames : List String :=
  ["int32", "int64", "number", "integer", "long", "float", "double"]

def textualNames : List String :=
  ["string", "byte", "binary", "date", "dateTime", "date-time", "password"]

def ofName (name : String) : Kind :=
  if name ∈ numericNames then .numeric
  else if name = "boolean" then .boolean
  else if name = "array" then .array
  else if name = "null" then .null
  else if name ∈ textualNames then .textual
  else if name = "object" then .object
  else .other

/-- A list or a mapping cannot be looked up among the names. -/
def of : Value → Except Fault Kind
  | .scalar .null => .ok .absent
  | .scalar (.str name) => .ok (ofName name)
  | .scalar _ => .ok .other
  | .set _ => .ok .other
  | _ => .error (.misuse .wrongKind)

end Kind

def isComposition (es : Entries) : Bool :=
  (es.get "allOf").isFilled || (es.get "anyOf").isFilled || (es.get "oneOf").isFilled

def enumOr (es : Entries) (asText : Bool) (t : TypeExpr) : Except Fault TypeExpr :=
  if (es.get "enum").isFilled then TypeExpr.ofEnum (es.get "enum") asText else .ok t

def joined (join : List TypeExpr → TypeExpr) : List TypeExpr → TypeExpr
  | [t] => t
  | ts => join ts

def withRequired (t : TypeExpr) (required : Value) : Except Fault TypeExpr :=
  if required.isFilled then do
    return .requiring t (← (← required.elements).mapM Value.textField)
  else .ok t

/-- A value that is given: neither null nor false. -/
def isGiven : Value → Bool
  | .scalar .null => false
  | .scalar (.bool false) => false
  | _ => true

/-- Additional properties without any condition. -/
def admitsAnything : Value → Bool
  | .scalar (.bool true) => true
  | .map _ [] => true
  | _ => false

def inlineDescription : Value → Value
  | .map _ es => if (reference? es).isSome then .null else Entries.get es "description"
  | _ => .null

theorem sizeOf_of_get? {es : Entries} {key : String} {v : Value} (h : es.get? key = some v) :
    sizeOf v < sizeOf es :=
  Entries.sizeOf_of_find? h

mutual

def typeOf (schema : Value) (location : String) : Except Fault TypeExpr :=
  match schema with
  | .map _ es =>
    match reference? es with
    | some ref => referencedType ref (some location)
    | none => mappingType es location
  | _ => .ok .any
termination_by (sizeOf schema, 0)

def mappingType (es : Entries) (location : String) : Except Fault TypeExpr := do
  let t ← match ← Kind.of (es.get "type") with
    | .numeric => enumOr es false .number
    | .boolean => enumOr es false .boolean
    | .array => arrayType es location
    -- null stays as it is, `nullable` or not
    | .null => return .null
    | .textual => enumOr es true .string
    | .absent =>
      if (es.get "enum").isFilled && !isComposition es then TypeExpr.ofEnum (es.get "enum") false
      else objectType es location
    | _ => objectType es location
  return if (es.get "nullable").isFilled then .nullable t else t
termination_by (sizeOf es, 2)

/-- An array, or a tuple if the least and the greatest number of items agree. -/
def arrayType (es : Entries) (location : String) : Except Fault TypeExpr :=
  match _h : es.get? "items" with
  | none => .error (.located .missingItems location)
  | some (.scalar .null) => .error (.located .missingItems location)
  | some items => do
    let item ← typeOf items (location ++ "/items")
    let least := es.get "minItems"
    let greatest := es.get "maxItems"
    if least.isFilled && greatest.isFilled && least.equals greatest then
      return .tuple item (← least.integerField)
    else return .array item
termination_by (sizeOf es, 0)
decreasing_by
  have := sizeOf_of_get? _h
  simp only [Prod.lex_def]
  omega

def objectType (es : Entries) (location : String) : Except Fault TypeExpr :=
  match reference? es with
  | some ref => referencedType ref (some location)
  | none =>
    if (es.get "allOf").isFilled then do
      let members ← memberTypes es "allOf" location
      withRequired (joined .intersection members) (es.get "required")
    else if (es.get "anyOf").isFilled then do
      return joined .union (← memberTypes es "anyOf" location)
    else if (es.get "oneOf").isFilled then do
      let members ← memberTypes es "oneOf" location
      withRequired (joined .union members) (es.get "required")
    else
      let additional := es.get "additionalProperties"
      let isAbsent := es.get "type" matches .scalar .null
      let isObject := (es.get "type").equals (.str "object")
      let isBare := es.get "properties" matches .scalar .null
      if isAbsent && isBare && !isGiven additional then .ok .emptyShape
      else if isObject && isBare && (!isGiven additional || admitsAnything additional) then
        .ok .freeFormMap
      else if !isBare || isGiven additional then do
        let fields ← propertyTypes es location
        return .shape fields (← indexType es location)
      else .ok (if isObject then .freeFormMap else .any)
termination_by (sizeOf es, 1)

/-- The types of the members of a composition. Only the elements of a list are schemas; the
parts of any other collection stand for any type. -/
def memberTypes (es : Entries) (key : String) (location : String) :
    Except Fault (List TypeExpr) :=
  match _h : es.get? key with
  | none => .ok []
  | some (.list items) => itemTypes items (location ++ "/" ++ key) 0
  | some members => do return (← members.elements).map fun _ => .any
termination_by (sizeOf es, 0)
decreasing_by
  have := sizeOf_of_get? _h
  simp only [Value.list.sizeOf_spec] at this
  simp only [Prod.lex_def]
  omega

def itemTypes (items : List Value) (location : String) (index : Nat) :
    Except Fault (List TypeExpr) :=
  match items with
  | [] => .ok []
  | item :: rest => do
    let t ← typeOf item (location ++ "/" ++ Text.ofNat index)
    return t :: (← itemTypes rest location (index + 1))
termination_by (sizeOf items, 0)

def propertyTypes (es : Entries) (location : String) :
    Except Fault (List (Field × TypeExpr)) :=
  match _h : es.get? "properties" with
  | none => .ok []
  | some (.map _ properties) =>
    let required := ((es.get "required").filled?).getD (.list [])
    fieldTypes properties required (location ++ "/properties/")
  | some properties =>
    if properties.isFilled then .error (.misuse .noSuchOperation) else .ok []
termination_by (sizeOf es, 0)
decreasing_by
  have := sizeOf_of_get? _h
  simp only [Value.map.sizeOf_spec] at this
  simp only [Prod.lex_def]
  omega

def fieldTypes (properties : List (Scalar × Value)) (required : Value) (location : String) :
    Except Fault (List (Field × TypeExpr)) :=
  match properties with
  | [] => .ok []
  | (key, schema) :: rest => do
    let t ← typeOf schema (location ++ key.text)
    let isRequired ← required.holds key
    -- a key of another kind is refused only after a fault of its schema
    let name ← Value.textField (.scalar key)
    let description ← (inlineDescription schema).optionalTextField
    return (⟨name, isRequired, description⟩, t) :: (← fieldTypes rest required location)
termination_by (sizeOf properties, 0)

def indexType (es : Entries) (location : String) : Except Fault (Option TypeExpr) :=
  match _h : es.get? "additionalProperties" with
  | none => .ok none
  | some (.scalar (.bool true)) => .ok (some .any)
  | some additional =>
    if isGiven additional then do
      return some (← typeOf additional (location ++ "/additionalProperties"))
    else .ok none
termination_by (sizeOf es, 0)
decreasing_by
  have := sizeOf_of_get? _h
  simp only [Prod.lex_def]
  omega

end

end ApiBindings.Schema
