import ApiBindings.Operation.Types
import ApiBindings.Operation.Metadata
import ApiBindings.Declaration.Component
import ApiBindings.Hook.Mutation

/-!
Binding an operation: its id is checked and remembered, its types are found and named, and its
declarations and hooks are written. Names are registered only after every type has been found.
-/

namespace ApiBindings.Operation

open Declaration (Statement Block)

structure Options where
  /-- Whether hooks are written, and deletions take the last placeholder as an argument. -/
  bindings : Bool
  customImport : Option String
  encodingMode : Option String
  customGenerator : Option (Metadata → Except Fault String)

def Options.default : Options := ⟨true, none, none, none⟩

def verbs : List String := ["get", "post", "patch", "put", "delete"]

structure Route where
  template : String
  idParam : Option String

/-- A deletion takes the last placeholder from the route if hooks are written. -/
def Route.of (route verb : String) (options : Options) : Route :=
  let template := Naming.interpolated route
  match (if options.bindings && verb == "delete" then Naming.cutLast? template else none) with
  | some (before, name) => ⟨before, some name⟩
  | none => ⟨template, none⟩

def Route.parameters (r : Route) (verb : String) : List String :=
  (Naming.placeholders r.template).filter fun name => !(verb == "delete" && r.idParam == some name)

/-- The name of an operation's types: its id as a type name, without the word `Controller`. -/
def componentName (id : Scalar) : Except Fault String := do
  let name ← Naming.pascalCaseOf (.scalar id)
  return String.ofList (Text.erase "Controller".toList name.toList)

def describe (operation : Entries) : Except Fault String :=
  let summary := operation.get "summary"
  let details := operation.get "description"
  if summary.isFilled && details.isFilled then .ok (summary.text ++ "\n\n" ++ details.text)
  else if summary.isFilled then plain summary
  else if details.isFilled then plain details
  else .ok ""
where
  plain : Value → Except Fault String
    | .scalar (.str s) => .ok s
    | _ => .error (.misuse .wrongKind)

structure Plan where
  name : String
  id : String
  verb : String
  route : Route
  pathParameters : List String
  types : Types
  description : String

namespace Plan

/-- Whether the answer has a declaration of its own, which it has if braces are in its text. -/
def namesResponse (p : Plan) : Bool := Text.occursIn ['\x7b'] p.types.response.render.toList

def namesBody (p : Plan) : Bool := p.types.body != .void

def namesQuery (p : Plan) : Bool := !p.types.queryMembers.isEmpty

def namesPath (p : Plan) : Bool := !p.pathParameters.isEmpty

def responseName (p : Plan) : String := p.name ++ "Response"
def queryName (p : Plan) : String := p.name ++ "QueryParams"
def pathName (p : Plan) : String := p.name ++ "PathParams"
def bodyName (p : Plan) : String := p.name ++ "RequestBody"

def responseType (p : Plan) : String :=
  if p.namesResponse then p.responseName else p.types.response.render

def idText (p : Plan) : Option String := p.types.id.map TypeExpr.render

def bodySlot (p : Plan) : String :=
  match p.idText with
  | some "" => ofBody
  | some text => text
  | none => ofBody
where
  ofBody : String := if p.namesBody then p.bodyName else p.types.body.render

def generics (p : Plan) : Generics where
  response := p.responseType
  error := p.types.error.render
  queryParams := if p.namesQuery then p.queryName else "void"
  body := p.bodySlot
  pathParams := if p.namesPath then p.pathName else "void"

def declaredNames (p : Plan) : List String :=
  (if p.namesResponse then [p.responseName] else [])
    ++ (if p.namesQuery then [p.queryName] else [])
    ++ (if p.namesPath then [p.pathName] else [])
    ++ (if p.namesBody then [p.bodyName] else [])

def membersInterface (name : String) (members : List Member) : Statement :=
  ⟨"", .interface, name,
    " \x7b\n  " ++ Text.joinWith ";\n  " (members.map Member.text) ++ ";\n\x7d"⟩

def statements (p : Plan) : List Statement :=
  (if p.namesResponse then [Declaration.declareAs "" p.responseName p.types.response] else [])
    ++ (if p.namesQuery then [membersInterface p.queryName p.types.queryMembers] else [])
    ++ (if p.namesPath then [membersInterface p.pathName p.types.pathMembers] else [])
    ++ (if p.namesBody then [Declaration.typeAlias "" p.bodyName p.types.body] else [])

def block (p : Plan) : Block := ⟨"", p.statements.map Statement.onLines, "", "\n"⟩

def metadata (p : Plan) (operation : Entries) : Metadata where
  componentName := p.name
  operationId := p.id
  verb := p.verb
  route := p.route.template
  description := p.description
  paramsInPath := p.pathParameters
  paramsTypes := Text.joinWith ";\n  " (p.types.pathMembers.map Member.text)
  generics := p.generics
  responseType := p.responseType
  errorType := p.types.error.render
  queryParamsType := if p.namesQuery then some p.queryName else none
  pathParamsType := if p.namesPath then some p.pathName else none
  requestBodyType := if p.namesBody then some p.bodyName else none
  idParam := p.route.idParam
  idType := p.idText
  operation := operation

end Plan

def location (route : Scalar) (verb : String) : String := "#/paths/" ++ route.text ++ "/" ++ verb

structure Call where
  operation : Entries
  verb : String
  route : Scalar
  routeParameters : Value

def Call.id (c : Call) : Except Fault Scalar :=
  let id := c.operation.get "operationId"
  if id.isFilled then id.expectKey
  else .error (.because (.missingOperationId c.verb c.route.text))

def Call.plan (c : Call) (components : Value) (options : Options) (id : Scalar) :
    Telling Plan := do
  let name ← componentName id
  let routeText ← Value.expectText (.scalar c.route)
  let route := Route.of routeText c.verb options
  let parameters ← mergeParameters components c.routeParameters (c.operation.get "parameters")
  let pathParameters := route.parameters c.verb
  let types ← typesOf c.operation parameters pathParameters route.idParam id.text
    (location c.route c.verb)
  let description ← describe c.operation
  return ⟨name, id.text, c.verb, route, pathParameters, types, description⟩

structure Bound where
  metadata : Metadata
  declared : Block
  hooks : Block

namespace Bound

def declarations (b : Bound) : String := b.declared.text

def bindings (b : Bound) : String := b.hooks.text

def text (b : Bound) : String := b.declarations ++ b.bindings

def names (b : Bound) : List String := b.declared.names ++ b.hooks.names

end Bound

def bindingsOf (m : Metadata) (options : Options) : Except Fault Block := do
  let hooks := if options.bindings then (Hook.ofMode options.encodingMode).block m else .empty
  match options.customGenerator with
  | some generate => return { hooks with ending := hooks.ending ++ (← generate m) }
  | none => return hooks

def claimId (c : Call) : Declaring Scalar := do
  let id ← c.id
  let seen := (← get).operationIds
  if seen.any id.isKey then
    throw (.located (.duplicateOperationId id.text) (Text.upper c.verb ++ " " ++ c.route.text))
  else
    -- the id stays taken, whatever becomes of the operation
    modify fun s => { s with operationIds := s.operationIds ++ [id] }
    return id

def bind (components : Value) (options : Options) (c : Call) : Declaring Bound := do
  let id ← claimId c
  let plan ← Declaring.telling (c.plan components options id)
  -- nothing is registered for an operation whose types were not found
  plan.declaredNames.forM fun name => Declaring.register name (location c.route c.verb)
  let operation ← textKeyed (.ofEntries c.operation)
  let metadata := plan.metadata operation
  let hooks ← bindingsOf metadata options
  Declaring.tell ⟨.debug, .operations,
    "Операция " ++ Text.upper c.verb ++ " " ++ plan.route.template ++ " -> " ++ plan.name⟩
  return ⟨metadata, plan.block, hooks⟩

end ApiBindings.Operation
