import ApiBindings.Lint.Report
import ApiBindings.Document.Order
import ApiBindings.Document.Walk
import ApiBindings.Schema.Reference
import ApiBindings.Naming.PathTemplate

/-!
Structural checks of a document before anything is generated from it: its sections, references
and arrays anywhere in it, and the id, the answers and the path parameters of each operation.
-/

namespace ApiBindings.Lint

def httpMethods : List String :=
  ["get", "put", "post", "delete", "options", "head", "patch", "trace"]

def sectionIssues (document : Entries) : Report :=
  (if (document.get "info").isFilled then .empty else .error "Не задан раздел info" "#/info")
    ++ (if (document.get "paths").isFilled then .empty
      else .error "Не задан раздел paths" "#/paths")

/-- A reference has to lead to a node of the document. -/
def referenceIssues (document : Value) (path : String) (es : Entries) : Report :=
  match es.get "$ref" with
  | .scalar (.str ref) =>
    match Text.dropStart? "#/" ref with
    | none => .warning ("Внешняя ссылка не поддерживается: " ++ ref) path
    | some pointer =>
      if Pointer.leadsInto document pointer then .empty
      else .error ("Ссылка не найдена: " ++ ref) path
  | _ => .empty

def arrayIssues (path : String) (es : Entries) : Report :=
  if (es.get "type").equals (.str "array") && !es.has "items" then
    .error "Для массива не задан ключ `items`" path
  else .empty

def nodeIssues (document : Value) : Report :=
  .all ((document.mappings "#").map fun (path, es) =>
    referenceIssues document path es ++ arrayIssues path es)

def resolvedParameter (document : Entries) (item : Value) : Except Fault Value :=
  match item with
  | .map _ es =>
    match Entries.get es "$ref" with
    | .scalar (.str ref) =>
      match Text.dropStart? Schema.parametersRoot ref with
      | some name => do
        let components ← (document.get "components").entriesOrNone
        let shared ← (components.get "parameters").entriesOrNone
        return shared.get name
      | none => .ok item
    | _ => .ok item
  | _ => .ok item

/-- Two parameter lists in one. Texts are taken as lists of their characters. -/
def concatenated (ofRoute ofOperation : Value) : Except Fault (List Value) :=
  match ofRoute, ofOperation with
  | .list xs, .list ys => .ok (xs ++ ys)
  | .scalar (.str s), .scalar (.str t) => (Value.str (s ++ t)).elements
  | .scalar (.bytes s), .scalar (.bytes t) => (Value.scalar (.bytes (s ++ t))).elements
  | _, _ => .error (.misuse .wrongKind)

def distinct (xs : List Scalar) : List Scalar :=
  xs.foldl (fun seen x => if seen.any x.isKey then seen else seen ++ [x]) []

def declaredNames (document : Entries) (items : List Value) : Except Fault (List Scalar) := do
  let parameters ← items.mapM (resolvedParameter document)
  let names ← (parameters.filterMap fun
    | .map _ es =>
      if (Entries.get es "in").equals (.str "path") then some (Entries.get es "name") else none
    | _ => none).mapM Value.expectKey
  return distinct names

def missing (xs ys : List Scalar) : Except Fault (List Scalar) :=
  Scalar.sorted (xs.filter fun x => !ys.any x.isKey)

/-- Placeholders and declared path parameters have to be the same. -/
def parameterIssues (document : Entries) (route : Scalar) (ofRoute ofOperation : Value)
    (location : String) : Except Fault Report := do
  let declared ← declaredNames document (← concatenated ofRoute ofOperation)
  let inRoute ← match route with
    | .str s => pure (distinct ((Naming.placeholders s).map Scalar.str))
    | _ => throw (.misuse .wrongKind)
  let undeclared ← missing inRoute declared
  let unused ← missing declared inRoute
  return Report.all (undeclared.map fun name =>
      .warning ("Параметр пути " ++ name.literal ++ " не объявлен в parameters") location)
    ++ Report.all (unused.map fun name =>
      .warning ("Параметр пути " ++ name.literal ++ " отсутствует в шаблоне пути") location)

/-- An operation has to have an id, should have answers, and declares its path parameters. -/
def operationIssues (document : Entries) (route : Scalar) (method : String)
    (ofRoute : Value) (operation : Entries) : Except Fault Report := do
  let location := "#/paths/" ++ route.text ++ "/" ++ method
  let ofOperation := ((operation.get "parameters").filled?).getD (.list [])
  let parameters ← parameterIssues document route ofRoute ofOperation location
  return (if (operation.get "operationId").isFilled then .empty
      else Report.error "Не задан operationId" location)
    ++ (if (operation.get "responses").isFilled then .empty
      else Report.warning "Не заданы responses" location)
    ++ parameters

def pathIssues (document : Entries) (route : Scalar) (path : Value) : Except Fault Report :=
  match path with
  | .map _ es => do
    let ofRoute := ((Entries.get es "parameters").filled?).getD (.list [])
    let reports ← es.mapM fun (key, operation) =>
      match key, operation with
      | .str method, .map _ fields =>
        if method ∈ httpMethods then operationIssues document route method ofRoute fields
        else .ok Report.empty
      | _, _ => .ok Report.empty
    return .all reports
  | _ => .ok .empty

def check (document : Value) : Except Fault Report := do
  let es ← document.entries
  let paths ← (es.get "paths").entriesOrNone
  let operations ← paths.mapM fun (route, path) => pathIssues es route path
  return sectionIssues es ++ nodeIssues document ++ .all operations

/-- Checks a document and tells the findings; a strict check fails if there are errors. -/
def run (document : Value) (strict : Bool) : Telling Report := do
  let report ← check document
  Telling.tellAll report.events
  if strict && !report.isClean then throw (.because (.rejectedByLint report.errors.length))
  else return report

end ApiBindings.Lint
