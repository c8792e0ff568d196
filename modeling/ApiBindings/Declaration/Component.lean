import ApiBindings.Declaration.Session
import ApiBindings.Declaration.Statement
import ApiBindings.Schema.Content
import ApiBindings.TypeExpr.Render

/-!
The declarations of the components of a document: an interface for a plain object schema, a type
alias for any other, and the bodies of the shared requests and responses. Every declared name is
registered with its place before its type is looked at.
-/

namespace ApiBindings.Declaration

def emptyInterfaceMarker : String := "// tslint:disable-next-line:no-empty-interface\n"

/-- Whether the schema can be declared as an interface. -/
def isObjectSchema : Value → Bool
  | .map _ es =>
    (Schema.reference? es).isNone
      && (match Entries.get es "type" with
        | .scalar .null => true
        | .scalar (.str kind) => kind == "object"
        | _ => false)
      && !(Entries.get es "enum").isFilled
      && !Schema.isComposition es
      && !(Entries.get es "nullable").isFilled
  | _ => false

def interface (comment name : String) (t : TypeExpr) : Statement :=
  ⟨comment, .interface, name, " " ++ t.render⟩

def typeAlias (comment name : String) (t : TypeExpr) : Statement :=
  ⟨comment, .typeAlias, name, " = " ++ t.render ++ ";"⟩

def declareAs (comment name : String) (t : TypeExpr) : Statement :=
  -- the marker of an empty interface stands in place of the comment
  if t.isEmptyShape then interface emptyInterfaceMarker name t
  else if t.isShape then interface comment name t
  else typeAlias comment name t

/-- The declaration of a type under its description, which an empty interface does not have. -/
def declaration (name : String) (t : TypeExpr) (description : Value) :
    Except Fault Statement := do
  if t.isEmptyShape then return declareAs "" name t
  else return declareAs (← Naming.docCommentOf description 0) name t

def declare (name : String) (t : TypeExpr) (description : Value) : Except Fault String := do
  return (← declaration name t description).text

def declareSchema (name : String) (schema : Value) (location : String) :
    Except Fault Statement :=
  match schema with
  | .map _ es => do
    if isObjectSchema schema then
      let t ← Schema.mappingType es location
      let comment ← Naming.docCommentOf (Entries.get es "description") 0
      return interface (comment ++ if t.isEmptyShape then emptyInterfaceMarker else "") name t
    else
      let t ← Schema.typeOf schema location
      return typeAlias (← Naming.docCommentOf (Schema.inlineDescription schema) 0) name t
  | _ => do return typeAlias "" name (← Schema.typeOf schema location)

def declareSchemas (schemas : Value) : Declaring Block :=
  if schemas.isFilled then do
    let declarations ← (← schemas.entries).mapM fun (key, schema) => do
      let name ← Naming.pascalCaseOf (.scalar key)
      let location := Schema.schemasRoot ++ key.text
      Declaring.register name location
      let declaration ← declareSchema name schema location
      Declaring.tell ⟨.debug, .components, "Схема " ++ key.text ++ " -> " ++ name⟩
      return declaration
    return ⟨"", declarations, "\n\n", "\n"⟩
  else pure .empty

structure BodySection where
  key : String
  suffix : String

def requestBodies : BodySection := ⟨"requestBodies", "RequestBody"⟩
def responses : BodySection := ⟨"responses", "Response"⟩

def declareBodies (part : BodySection) (bodies : Value) : Declaring Block :=
  if bodies.isFilled then do
    let declarations ← (← bodies.entries).mapM fun (key, body) => do
      let name := (← Naming.pascalCaseOf (.scalar key)) ++ part.suffix
      let location := "#/components/" ++ part.key ++ "/" ++ key.text
      Declaring.register name location
      let t ← Schema.contentType body location
      declaration name t (Schema.inlineDescription body)
    return ⟨"\n", declarations, "\n\n", "\n"⟩
  else pure .empty

def componentBlocks (components : Value) : Declaring (List Block) := do
  let es ← components.entriesOrNone
  let schemas ← declareSchemas (es.get "schemas")
  let bodies ← declareBodies requestBodies (es.get "requestBodies")
  let answers ← declareBodies responses (es.get "responses")
  return [schemas, bodies, answers]

def declareComponents (components : Value) : Declaring (List String) := do
  return (← componentBlocks components).map Block.text

end ApiBindings.Declaration
