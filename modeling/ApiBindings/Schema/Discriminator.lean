import ApiBindings.Schema.Reference
import ApiBindings.Document.Display
import ApiBindings.Document.Sharing
import ApiBindings.Log

/-!
Discriminators. A schema that maps tag values to other schemas narrows them: in each target the
property of the tag becomes the enumeration of the one value that selects it. The collection
itself is left as it is; the result is a copy in which the same places are shared.
-/

namespace ApiBindings.Schema

/-- The tag of a discriminator, and the schema that declares it. -/
structure Discriminator where
  owner : Scalar
  property : Value

def tagEnumeration (value : Scalar) : Value := .list [.scalar value]

def narrowTarget (schemas : Entries) (target : Scalar) (property : Value) (value : Scalar) :
    Except Fault Entries := do
  let propertiesKey := Scalar.str "properties"
  let propertiesOf (es : Entries) : Option Value :=
    match es.find? target with
    | some (.map _ schema) => Entries.find? schema propertiesKey
    | _ => none
  let schemas := match propertiesOf schemas with
    | some _ => schemas
    | none => schemas.write [target] (·.put propertiesKey (.ofEntries []))
  let properties ← ((propertiesOf schemas).getD .null).entries
  let key ← property.expectKey
  let enumeration := tagEnumeration value
  -- a property that is a reference has no room for an enumeration, so that it is replaced
  let inPlace := match properties.find? key with
    | some (.map _ es) => (reference? es).isNone
    | _ => false
  if inPlace then
    return schemas.write [target, propertiesKey, key] (·.put (.str "enum") enumeration)
  else
    let fresh := Value.ofEntries [(.str "enum", enumeration)]
    return schemas.write [target, propertiesKey] (·.put key fresh)

def followMapping (d : Discriminator) (schemas : Entries) (value : Scalar) (ref : Value) :
    Telling Entries := do
  let ref ← ref.expectText
  match Text.dropStart? schemasRoot ref with
  | none =>
    throw (.located (.unsupportedDiscriminator ref)
      (schemasRoot ++ d.owner.text ++ "/discriminator/mapping/" ++ value.text))
  | some path =>
    let name := Pointer.unescape path
    match schemas.find? (.str name) with
    | some (.map ..) =>
      let narrowed ← narrowTarget schemas (.str name) d.property value
      Telling.tell ⟨.debug, .discriminators,
        "Discriminator " ++ d.owner.text ++ ": " ++ value.text ++ " -> " ++ name⟩
      return narrowed
    | _ =>
      Telling.tell ⟨.warning, .discriminators,
        "Discriminator " ++ d.owner.text ++ "." ++ d.property.text
          ++ " указывает на отсутствующую схему " ++ ref⟩
      return schemas

def followSchema (schemas : Entries) (name : Scalar) (schema : Value) : Telling Entries :=
  match schema with
  | .map _ es =>
    if (reference? es).isSome then pure schemas
    else do
      let discriminator ← (Entries.get es "discriminator").entriesOrNone
      let mapping := discriminator.get "mapping"
      if mapping.isFilled then
        let d : Discriminator := ⟨name, discriminator.get "propertyName"⟩
        (← mapping.entries).foldlM (fun acc e => followMapping d acc e.1 e.2) schemas
      else return schemas
  | _ => pure schemas

def followDiscriminators (schemas : Value) : Telling Entries := do
  let source ← schemas.entriesOrNone
  source.foldlM (fun acc e => followSchema acc e.1 e.2) source

end ApiBindings.Schema
