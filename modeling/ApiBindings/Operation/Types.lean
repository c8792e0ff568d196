import ApiBindings.Operation.Parameter
import ApiBindings.Schema.Content
import ApiBindings.Naming.PathTemplate
import ApiBindings.TypeExpr.Render

/-!
The types that one operation uses: of its answers, its body and its parameters.
-/

namespace ApiBindings.Operation

def isSuccess (code : Scalar) : Bool := Text.beginsWith "2" code.text

/-- Whether a status code is of an error, or stands for all others. -/
def isFailure (code : Scalar) : Bool :=
  Text.beginsWith "4" code.text || Text.beginsWith "5" code.text || code.text == "default"

structure Member where
  comment : String
  key : String
  required : Bool
  type : TypeExpr

def Member.text (m : Member) : String :=
  m.comment ++ m.key ++ (if m.required then "" else "?") ++ ": " ++ m.type.render

def parameterType (p : Parameter) (location : String) : Except Fault TypeExpr :=
  match p.entries.get? "schema" with
  | some schema => Schema.typeOf schema location
  | none =>
    if (p.entries.get "content").isFilled then Schema.contentType (.ofEntries p.entries) location
    else .ok .any

def queryMember (p : Parameter) (location : String) : Except Fault Member := do
  -- a missing name is the empty one, while null is none
  let name := (p.entries.get? "name").getD (.str "")
  let t ← parameterType p (location ++ "/parameters/" ++ name.text)
  let comment ← Naming.docCommentOf (p.entries.get "description") 2
  match name with
  | .scalar (.str key) =>
    return ⟨comment, Naming.propertyKey key, (p.entries.get "required").isFilled, t⟩
  | _ => .error (.misuse .wrongKind)

def undeclared (name operationId : String) : Event :=
  ⟨.warning, .operations,
    "Параметр пути " ++ name ++ " не объявлен в параметрах (" ++ operationId
      ++ "), используется string"⟩

def textMember (name : String) : Member := ⟨"", name, true, .string⟩

def pathMember (name : String) (pathParameters : List Parameter) (operationId : String) :
    Telling Member := do
  match pathParameters.find? (·.hasName name) with
  | some p =>
    match p.entries.get? "schema" with
    | some schema =>
      let t ← Schema.typeOf schema "#"
      let comment ← Naming.docCommentOf (p.entries.get "description") 2
      return ⟨comment, name, (p.entries.get "required").isFilled, t⟩
    | none =>
      Telling.tell (undeclared name operationId)
      return textMember name
  | none =>
    Telling.tell (undeclared name operationId)
    return textMember name

def idType (name : String) (parameters : List Parameter) (operationId : String) :
    Except Fault TypeExpr :=
  -- parameters of all positions are searched, not only those of the path
  if parameters.isEmpty then .ok .string
  else match parameters.find? (·.hasName name) with
    | none => .error (.because (.unresolvedPathParameter name operationId))
    | some p =>
      match p.entries.get "schema" with
      | .map _ es =>
        match Schema.reference? es with
        | some ref => Schema.referencedType ref none
        | none => if es.isEmpty then .ok .string else Schema.mappingType es "#"
      | schema =>
        if schema.isFilled then .error (.misuse .noSuchOperation) else .ok .string

structure Types where
  response : TypeExpr
  error : TypeExpr
  body : TypeExpr
  pathMembers : List Member
  queryMembers : List Member
  id : Option TypeExpr

def answers (responses : Entries) (accepts : Scalar → Bool) (location : String) :
    Except Fault (Option TypeExpr) :=
  Schema.contentUnion (responses.filter fun e => accepts e.1) (location ++ "/responses")

def typesOf (operation : Entries) (parameters : List Parameter) (placeholders : List String)
    (idParam : Option String) (operationId location : String) : Telling Types := do
  let responses ← (operation.get "responses").entriesOrNone
  let response ← answers responses isSuccess location
  let error ← answers responses isFailure location
  let body ← Schema.contentType (operation.get "requestBody") (location ++ "/requestBody")
  let inPath := parameters.filter (·.isIn "path")
  let inQuery := parameters.filter (·.isIn "query")
  let pathMembers ← placeholders.mapM fun name => pathMember name inPath operationId
  let queryMembers ← inQuery.mapM fun p => queryMember p location
  let id ← match idParam with
    | some name => pure (some (← idType name parameters operationId))
    | none => pure none
  return ⟨response.getD .void, error.getD .unknown, body, pathMembers, queryMembers, id⟩

end ApiBindings.Operation
