import ApiBindings.Proofs.Operation.Bind
import ApiBindings.Proofs.Operation.Route
import ApiBindings.Proofs.Text.Occurrence

/-!
The types that are declared for one operation. Main statement: each is declared, named in the
metadata and registered exactly if the operation has something to declare in it.
-/

namespace ApiBindings.Operation

open Declaration (Statement)

inductive Synthetic where
  | response
  | query
  | path
  | body
deriving DecidableEq

namespace Synthetic

def all : List Synthetic := [.response, .query, .path, .body]

def suffix : Synthetic → String
  | .response => "Response"
  | .query => "QueryParams"
  | .path => "PathParams"
  | .body => "RequestBody"

theorem suffix_injective : Function.Injective suffix := by
  intro a b h
  cases a <;> cases b <;> first | rfl | exact absurd h (by decide)

end Synthetic

structure Usage where
  name : String
  parameters : List Parameter
  /-- The placeholders that are path parameters. -/
  placeholders : List String
  types : Types

namespace Usage

variable (u : Usage)

def Uses : Synthetic → Prop
  | .response => '\x7b' ∈ u.types.response.render.toList
  | .query => ∃ p ∈ u.parameters, p.isIn "query" = true
  | .path => u.placeholders ≠ []
  | .body => u.types.body ≠ .void

instance : DecidablePred u.Uses
  | .response => inferInstanceAs (Decidable ('\x7b' ∈ u.types.response.render.toList))
  | .query => inferInstanceAs (Decidable (∃ p ∈ u.parameters, p.isIn "query" = true))
  | .path => inferInstanceAs (Decidable (u.placeholders ≠ []))
  | .body => inferInstanceAs (Decidable (u.types.body ≠ .void))

def used : List Synthetic := Synthetic.all.filter (u.Uses ·)

def typeName (x : Synthetic) : String := u.name ++ x.suffix

def typeName? (x : Synthetic) : Option String := if u.Uses x then some (u.typeName x) else none

def statement : Synthetic → Statement
  | .response => Declaration.declareAs "" (u.typeName .response) u.types.response
  | .query => Plan.membersInterface (u.typeName .query) u.types.queryMembers
  | .path => Plan.membersInterface (u.typeName .path) u.types.pathMembers
  | .body => Declaration.typeAlias "" (u.typeName .body) u.types.body

def declaredNames : List String := u.used.map u.typeName

theorem nodup_declaredNames : u.declaredNames.Nodup := by
  have hinjective : Function.Injective u.typeName := by
    intro x y h
    exact Synthetic.suffix_injective ((String.append_right_inj u.name).mp h)
  have hall : Synthetic.all.Nodup := by decide
  exact (hall.filter _).map hinjective

structure IsOf (c : Call) (id : Scalar) : Prop where
  named : componentName id = .ok u.name
  response : ∃ responses response, (c.operation.get "responses").entriesOrNone = .ok responses ∧
    answers responses isSuccess (location c.route c.verb) = .ok response ∧
    u.types.response = response.getD .void
  body : Schema.contentType (c.operation.get "requestBody")
    (location c.route c.verb ++ "/requestBody") = .ok u.types.body
  query : List.Forall₂ (fun p m => queryMember p (location c.route c.verb) = .ok m)
    (u.parameters.filter (·.isIn "query")) u.types.queryMembers
  path : List.Forall₂ (fun name m => m.key = name ∧ ∃ s t, Returns
      (pathMember name (u.parameters.filter (·.isIn "path")) id.text) s m t)
    u.placeholders u.types.pathMembers

theorem IsOf.keys {u : Usage} {c : Call} {id : Scalar} (h : u.IsOf c id) :
    u.types.pathMembers.map Member.key = u.placeholders := by
  have hkeys := h.path
  revert hkeys
  generalize u.types.pathMembers = members
  generalize u.placeholders = placeholders
  intro hkeys
  induction hkeys with
  | nil => rfl
  | cons hm _ ih => rw [List.map_cons, hm.1, ih]

/-- The types that are used are declared in order, and the metadata names them and no others. -/
structure Describes (b : Bound) : Prop where
  name : b.metadata.componentName = u.name
  placeholders : b.metadata.paramsInPath = u.placeholders
  declared : b.declared = ⟨"", (u.used.map u.statement).map Statement.onLines, "", "\n"⟩
  names : b.declared.names = u.declaredNames
  response : b.metadata.generics.response = (u.typeName? .response).getD u.types.response.render
  queryParams : b.metadata.generics.queryParams = (u.typeName? .query).getD "void"
  pathParams : b.metadata.generics.pathParams = (u.typeName? .path).getD "void"
  body : b.metadata.generics.body =
    (b.metadata.idType.filter (· ≠ "")).getD ((u.typeName? .body).getD "void")
  queryParamsType : b.metadata.queryParamsType = u.typeName? .query
  pathParamsType : b.metadata.pathParamsType = u.typeName? .path
  requestBodyType : b.metadata.requestBodyType = u.typeName? .body

theorem used_map {α : Type} (f : Synthetic → α) : u.used.map f =
    (if u.Uses .response then [f .response] else [])
      ++ (if u.Uses .query then [f .query] else [])
      ++ (if u.Uses .path then [f .path] else [])
      ++ (if u.Uses .body then [f .body] else []) := by
  have hcons (x : Synthetic) (xs : List Synthetic) : ((x :: xs).filter (u.Uses ·)).map f =
      (if u.Uses x then [f x] else []) ++ (xs.filter (u.Uses ·)).map f := by
    by_cases hx : u.Uses x <;> simp [hx]
  rw [used, Synthetic.all, hcons, hcons, hcons, hcons]
  simp

end Usage

def Plan.usage (p : Plan) (parameters : List Parameter) : Usage :=
  ⟨p.name, parameters, p.pathParameters, p.types⟩

def Plan.declares (p : Plan) : Synthetic → Bool
  | .response => p.namesResponse
  | .query => p.namesQuery
  | .path => p.namesPath
  | .body => p.namesBody

section Plan

variable {components : Value} {options : Options} {c : Call} {id : Scalar} {s t : Log} {p : Plan}
  {parameters : List Parameter}

theorem plan_usage (h : Returns (c.plan components options id) s p t) :
    ∃ parameters log, (p.usage parameters).IsOf c id ∧
      Returns (mergeParameters components c.routeParameters (c.operation.get "parameters")) s
        parameters log := by
  obtain ⟨text, parameters, log, hmade⟩ := plan_returns h
  have hmembers : List.Forall₂ (fun name m => m.key = name ∧ ∃ s t, Returns
      (pathMember name (parameters.filter (·.isIn "path")) id.text) s m t)
      p.pathParameters p.types.pathMembers := by
    refine (forall₂_of_returns_mapM hmade.types.pathMembers).imp ?_
    rintro name m ⟨v, w, hm⟩
    refine ⟨?_, v, w, hm⟩
    rcases pathMember_returns hm with ⟨-, -, -, -, -, -, hkey⟩ | ⟨-, rfl⟩
    · exact hkey
    · rfl
  exact ⟨parameters, log, ⟨hmade.name, hmade.types.response, hmade.types.body,
    mapM_eq_ok.mp hmade.types.queryMembers, hmembers⟩, hmade.merged⟩

theorem Plan.declares_eq (h : (p.usage parameters).IsOf c id) (x : Synthetic) :
    p.declares x = decide ((p.usage parameters).Uses x) := by
  rw [Bool.eq_iff_iff, decide_eq_true_iff]
  cases x with
  | response =>
    rw [Plan.declares, Plan.namesResponse, Text.occursIn_iff, List.singleton_infix_iff]
    rfl
  | query =>
    have hlength : (parameters.filter (·.isIn "query")).length = p.types.queryMembers.length :=
      h.query.length_eq
    have hempty : p.types.queryMembers = [] ↔ parameters.filter (·.isIn "query") = [] := by
      rw [← List.length_eq_zero_iff, ← hlength, List.length_eq_zero_iff]
    rw [Plan.declares, Plan.namesQuery, Bool.not_eq_true', List.isEmpty_eq_false_iff, Ne, hempty,
      List.filter_eq_nil_iff]
    push Not
    rfl
  | path =>
    rw [Plan.declares, Plan.namesPath, Bool.not_eq_true', List.isEmpty_eq_false_iff]
    rfl
  | body => exact bne_iff_ne

theorem Plan.if_declares {α : Type} (h : (p.usage parameters).IsOf c id) (x : Synthetic)
    (yes no : α) :
    (if p.declares x then yes else no) = if (p.usage parameters).Uses x then yes else no := by
  simp [p.declares_eq h x]

theorem Plan.statements_eq (h : (p.usage parameters).IsOf c id) :
    p.statements = (p.usage parameters).used.map (p.usage parameters).statement := by
  rw [Usage.used_map, ← p.if_declares h, ← p.if_declares h, ← p.if_declares h, ← p.if_declares h]
  rfl

theorem Plan.declaredNames_eq (h : (p.usage parameters).IsOf c id) :
    p.declaredNames = (p.usage parameters).declaredNames := by
  rw [Usage.declaredNames, Usage.used_map, ← p.if_declares h, ← p.if_declares h,
    ← p.if_declares h, ← p.if_declares h]
  rfl

theorem Plan.typeName?_eq (h : (p.usage parameters).IsOf c id) (x : Synthetic) :
    (p.usage parameters).typeName? x =
      if p.declares x then some ((p.usage parameters).typeName x) else none := by
  rw [Usage.typeName?, p.if_declares h]

theorem Plan.getD_typeName? (h : (p.usage parameters).IsOf c id) (x : Synthetic) (text : String) :
    ((p.usage parameters).typeName? x).getD text =
      if p.declares x then (p.usage parameters).typeName x else text := by
  rw [p.typeName?_eq h]
  split_ifs <;> rfl

theorem Plan.bodySlot_eq (h : (p.usage parameters).IsOf c id) :
    p.bodySlot = (p.idText.filter (· ≠ "")).getD (((p.usage parameters).typeName? .body).getD
      "void") := by
  have hbody : Plan.bodySlot.ofBody p = ((p.usage parameters).typeName? .body).getD "void" := by
    rw [p.getD_typeName? h, Plan.bodySlot.ofBody]
    cases hnames : p.namesBody with
    | true =>
      rw [Plan.declares, hnames, if_pos rfl, if_pos rfl]
      rfl
    | false =>
      have hvoid : p.types.body = .void := by simpa [Plan.namesBody] using hnames
      rw [Plan.declares, hnames, hvoid, if_neg Bool.false_ne_true, if_neg Bool.false_ne_true]
      rfl
  rw [← hbody, Plan.bodySlot]
  cases p.idText with
  | none => rfl
  | some text =>
    by_cases htext : text = ""
    · rw [htext]
      rfl
    · simp [Option.filter, htext]

theorem Plan.describes {b : Bound} (h : (p.usage parameters).IsOf c id)
    (hmeta : b.metadata = p.metadata c.operation) (hdeclared : b.declared = p.block) :
    (p.usage parameters).Describes b where
  name := by rw [hmeta]; rfl
  placeholders := by rw [hmeta]; rfl
  declared := by rw [hdeclared, Plan.block, p.statements_eq h]
  names := by rw [hdeclared, Plan.names_block, p.declaredNames_eq h]
  response := by rw [hmeta, p.getD_typeName? h]; rfl
  queryParams := by rw [hmeta, p.getD_typeName? h]; rfl
  pathParams := by rw [hmeta, p.getD_typeName? h]; rfl
  body := by rw [hmeta]; exact p.bodySlot_eq h
  queryParamsType := by rw [hmeta, p.typeName?_eq h]; rfl
  pathParamsType := by rw [hmeta, p.typeName?_eq h]; rfl
  requestBodyType := by rw [hmeta, p.typeName?_eq h]; rfl

end Plan

/-- From one session to a later one just these names are registered at the place: the new ones are
added in their order, and a clash is told of each other one. -/
structure RegistersAt (s : Session) (names : List String) (place : String) (t : Session) :
    Prop where
  origins : t.registry.origins = s.registry.origins ++
    (names.filter fun name => !s.registry.holds name).map (·, place)
  clashes : t.log.filter (·.topic = .components) = s.log.filter (·.topic = .components) ++
    names.filterMap fun name => (s.registry.origin? name).map (Registry.clash name place)

variable {components : Value} {options : Options} {c : Call} {s t : Session} {b : Bound}

theorem bind_registersAt (hdistinct : b.declared.names.Nodup)
    (h : Returns (bind components options c) s b t) :
    RegistersAt s b.declared.names (location c.route c.verb) t := by
  obtain ⟨id, p, log, u, hbound⟩ := bind_steps h
  obtain ⟨event, rfl, htopic, -⟩ := hbound.told
  rw [hbound.declared, Plan.names_block] at hdistinct ⊢
  obtain ⟨events, rfl, hevents⟩ := (steady_plan c components options id).told hbound.planned
  obtain ⟨horigins, hlog⟩ := registrations_of_nodup hdistinct hbound.named
  refine ⟨horigins, ?_⟩
  -- the events around the clashes are on another topic
  have hbefore : events.filter (·.topic = .components) = [] := by
    rw [List.filter_eq_nil_iff]
    intro e he
    simp [hevents e he]
  have hafter : [event].filter (·.topic = .components) = [] := by simp [htopic]
  have hclashes (names : List String) : ((names.filterMap fun name =>
      (s.registry.origin? name).map (Registry.clash name (location c.route c.verb))).filter
        (·.topic = .components)) = names.filterMap fun name =>
      (s.registry.origin? name).map (Registry.clash name (location c.route c.verb)) := by
    rw [List.filter_eq_self]
    intro e he
    obtain ⟨name, -, hname⟩ := List.mem_filterMap.mp he
    obtain ⟨origin, -, rfl⟩ := Option.map_eq_some_iff.mp hname
    rfl
  rw [hlog, List.filter_append, List.filter_append, List.filter_append, hbefore, hafter, hclashes,
    List.append_nil, List.append_nil]

/-- A bound operation declares the types that it uses, in order and each once; its metadata holds
their names in just these cases, and just these names are registered. -/
theorem bind_declares_used (h : Returns (bind components options c) s b t) :
    ∃ id route, ∃ u : Usage, c.id = .ok id ∧ c.route = .str route ∧
      (∃ log, Returns (mergeParameters components c.routeParameters
        (c.operation.get "parameters")) s.log u.parameters log) ∧
      b.metadata.idParam = (if options.bindings && c.verb == "delete" then
        (Naming.cutLast? (Naming.interpolated route)).map Prod.snd else none) ∧
      u.placeholders =
        (Naming.placeholders route).filter (fun name => b.metadata.idParam ≠ some name) ∧
      u.IsOf c id ∧ u.Describes b ∧ b.declared.names.Nodup ∧
      RegistersAt s b.declared.names (location c.route c.verb) t := by
  obtain ⟨id, p, log, v, hbound⟩ := bind_steps h
  obtain ⟨parameters, w, hisOf, hmerged⟩ := plan_usage hbound.planned
  obtain ⟨route, _, _, hmade⟩ := plan_returns hbound.planned
  obtain ⟨-, -, hidParam, hparameters⟩ := bind_route hmade.routeText h
  have hdescribes := p.describes hisOf hbound.metadata hbound.declared
  have hdistinct : b.declared.names.Nodup :=
    hdescribes.names ▸ (p.usage parameters).nodup_declaredNames
  have hplaceholders : (p.usage parameters).placeholders =
      (Naming.placeholders route).filter (fun name => b.metadata.idParam ≠ some name) :=
    hdescribes.placeholders.symm.trans hparameters
  exact ⟨id, route, p.usage parameters, hbound.called, hmade.routeText, ⟨w, hmerged⟩,
    hidParam.trans (Route.idParam_of route c.verb options), hplaceholders, hisOf, hdescribes,
    hdistinct, bind_registersAt hdistinct h⟩

def petReplacement : Call where
  operation :=
    [(.str "operationId", .str "replacePet"),
      (.str "parameters", .list [.ofEntries [(.str "name", .str "dryRun"),
        (.str "in", .str "query")]]),
      (.str "requestBody", .ofEntries [(.str "$ref", .str "#/components/requestBodies/Pet")]),
      (.str "responses", .ofEntries [(.str "200",
        .ofEntries [(.str "$ref", .str "#/components/responses/Pet")])])]
  verb := "put"
  route := .str "/pets/\x7bpetId\x7d"
  routeParameters := .null

theorem petReplacement_returns : ∃ b t, Returns (bind .null .default petReplacement) .start b t ∧
    b.declared.names =
      ["ReplacePetQueryParams", "ReplacePetPathParams", "ReplacePetRequestBody"] :=
  exists_of_map_eq_some (by decide +kernel)

theorem bind_declares_used_petReplacement :
    ∃ b t, Returns (bind .null .default petReplacement) .start b t ∧
      ∃ id route, ∃ u : Usage, petReplacement.id = .ok id ∧ petReplacement.route = .str route ∧
        (∃ log, Returns (mergeParameters .null petReplacement.routeParameters
          (petReplacement.operation.get "parameters")) [] u.parameters log) ∧
        b.metadata.idParam = none ∧
        u.placeholders =
          (Naming.placeholders route).filter (fun name => b.metadata.idParam ≠ some name) ∧
        u.IsOf petReplacement id ∧ u.Describes b ∧ b.declared.names.Nodup ∧
        RegistersAt .start b.declared.names
          (location petReplacement.route petReplacement.verb) t := by
  obtain ⟨b, t, h, -⟩ := petReplacement_returns
  exact ⟨b, t, h, bind_declares_used h⟩

end ApiBindings.Operation
