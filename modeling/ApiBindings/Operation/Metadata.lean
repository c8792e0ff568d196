import ApiBindings.Document.Lax

/-!
What is known of one operation once its types are named: everything that hooks and further
generators work from.
-/

namespace ApiBindings.Operation

structure Generics where
  response : String
  error : String
  queryParams : String
  body : String
  pathParams : String
deriving DecidableEq

def Generics.toList (g : Generics) : List String :=
  [g.response, g.error, g.queryParams, g.body, g.pathParams]

def Generics.text (g : Generics) : String := Text.joinWith ", " g.toList

structure Metadata where
  componentName : String
  operationId : String
  verb : String
  route : String
  description : String
  paramsInPath : List String
  paramsTypes : String
  generics : Generics
  responseType : String
  errorType : String
  queryParamsType : Option String
  pathParamsType : Option String
  requestBodyType : Option String
  idParam : Option String
  idType : Option String
  /-- The operation as the document has it; all its keys are texts. -/
  operation : Entries

def textKeyed : Value → Except Fault Entries
  | .map _ es =>
    if es.all fun e => e.1 matches .str _ then .ok es else .error (.misuse .rejectedField)
  | _ => .error (.misuse .rejectedField)

def textList : Value → Except Fault (List String)
  | .list items => items.mapM Value.textField
  | .pair a b => [a, b].mapM Value.textField
  | _ => .error (.misuse .rejectedField)

def Generics.ofValue (v : Value) : Except Fault Generics := do
  match ← textList v with
  | [response, error, query, body, path] => return ⟨response, error, query, body, path⟩
  | _ => .error (.misuse .rejectedField)

/-- Metadata as a record. Fields without a value have their defaults; other entries are ignored. -/
def Metadata.ofEntries (es : Entries) : Except Fault Metadata := do
  let required (key : String) : Except Fault String :=
    match es.get? key with
    | some v => v.textField
    | none => .error (.misuse .rejectedField)
  let text (key default : String) : Except Fault String :=
    match es.get? key with
    | some v => v.textField
    | none => .ok default
  let optional (key : String) : Except Fault (Option String) := (es.get key).optionalTextField
  return {
    componentName := ← required "component_name"
    operationId := ← required "operation_id"
    verb := ← required "verb"
    route := ← required "route"
    description := ← text "description" ""
    paramsInPath := ← (match es.get? "params_in_path" with
      | some v => textList v
      | none => .ok [])
    paramsTypes := ← text "params_types" ""
    generics := ← Generics.ofValue (es.get "generics")
    responseType := ← text "response_type" "void"
    errorType := ← text "error_type" "unknown"
    queryParamsType := ← optional "query_params_type"
    pathParamsType := ← optional "path_params_type"
    requestBodyType := ← optional "request_body_type"
    idParam := ← optional "id_param"
    idType := ← optional "id_type"
    operation := ← (match es.get? "operation" with
      | some v => textKeyed v
      | none => .ok []) }

end ApiBindings.Operation
