import ApiBindings.Proofs.Operation.Bind
import ApiBindings.Proofs.Schema.References

/-!
The references that the types of an operation are made of. Main statement: each name in them is the
name of a reference in an answer, in the body, or in a parameter that is read.
-/

namespace ApiBindings.Operation

def Plan.expressions (p : Plan) : List TypeExpr :=
  [p.types.response, p.types.error, p.types.body] ++ p.types.pathMembers.map Member.type ++
    p.types.queryMembers.map Member.type ++ p.types.id.toList

def Call.HasParameters (components : Value) (c : Call) (parameters : List Parameter) : Prop :=
  ∃ s t, Returns (mergeParameters components c.routeParameters (c.operation.get "parameters")) s
    parameters t

def Call.HasPlan (components : Value) (options : Options) (c : Call) (p : Plan) : Prop :=
  ∃ id s t, c.id = .ok id ∧ Returns (c.plan components options id) s p t

/-- A reference in a schema or in a body that is read for the types of an operation. -/
inductive Call.Refers (components : Value) (options : Options) (c : Call) : String → Prop
  | answer {e : Scalar × Value} {ref : String} : e ∈ (c.operation.get "responses").members →
    isSuccess e.1 = true ∨ isFailure e.1 = true → Schema.BodyRefers e.2 ref →
    Refers components options c ref
  | body {ref : String} : Schema.BodyRefers (c.operation.get "requestBody") ref →
    Refers components options c ref
  | query {parameters : List Parameter} {p : Parameter} {s : Value} {ref : String} :
    c.HasParameters components parameters → p ∈ parameters → p.isIn "query" = true →
    p.entries.get? "schema" = some s → Schema.Refers s ref → Refers components options c ref
  | content {parameters : List Parameter} {p : Parameter} {s : Value} {ref : String} :
    c.HasParameters components parameters → p ∈ parameters → p.isIn "query" = true →
    p.entries.get? "schema" = none → Schema.reference? p.entries = none →
    Schema.MediaSchema p.entries s → Schema.Refers s ref → Refers components options c ref
  | path {parameters : List Parameter} {p : Parameter} {route name : String} {s : Value}
    {ref : String} : c.HasParameters components parameters → c.route = .str route →
    name ∈ (Route.of route c.verb options).parameters c.verb →
    (parameters.filter (·.isIn "path")).find? (·.hasName name) = some p →
    p.entries.get? "schema" = some s → Schema.Refers s ref → Refers components options c ref
  | id {parameters : List Parameter} {p : Parameter} {route name : String} {ref : String} :
    c.HasParameters components parameters → c.route = .str route →
    (Route.of route c.verb options).idParam = some name →
    parameters.find? (·.hasName name) = some p → Schema.Refers (p.entries.get "schema") ref →
    Refers components options c ref

/-- The reference is a query parameter itself, in the place of a body: the parameter is read by its
content, and a shared parameter was not followed further. -/
def Call.RefersByParameter (components : Value) (c : Call) (ref : String) : Prop :=
  ∃ parameters, c.HasParameters components parameters ∧ ∃ p ∈ parameters, p.isIn "query" = true ∧
    p.entries.get? "schema" = none ∧ (p.entries.get "content").isFilled = true ∧
    Schema.reference? p.entries = some (.str ref)

variable {components : Value} {options : Options} {c : Call} {name : String} {t : TypeExpr}

theorem Call.HasParameters.eq_of_returns {parameters parameters' : List Parameter} {s t : Log}
    (h : c.HasParameters components parameters)
    (h' : Returns (mergeParameters components c.routeParameters (c.operation.get "parameters")) s
      parameters' t) : parameters = parameters' := by
  obtain ⟨u, v, h⟩ := h
  exact (steady_mergeParameters _ _ _).eq_of_returns h h'

theorem answers_names {responses : Entries} {accepts : Scalar → Bool} {location : String}
    {found : Option TypeExpr} {fallback : TypeExpr}
    (h : answers responses accepts location = .ok found) (hfallback : fallback.names = [])
    (hname : name ∈ (found.getD fallback).names) :
    ∃ e ∈ responses, accepts e.1 = true ∧ Schema.NamedBy (Schema.BodyRefers e.2) name := by
  cases found with
  | none =>
    rw [Option.getD_none, hfallback] at hname
    cases hname
  | some type =>
    obtain ⟨e, he, hnamed⟩ := Schema.contentUnion_names h hname
    obtain ⟨he, haccepts⟩ := List.mem_filter.mp he
    exact ⟨e, he, haccepts, hnamed⟩

theorem queryMember_names {p : Parameter} {location : String} {m : Member}
    (h : queryMember p location = .ok m) (hname : name ∈ m.type.names) :
    (∃ s, p.entries.get? "schema" = some s ∧ Schema.NamedBy (Schema.Refers s) name) ∨
      p.entries.get? "schema" = none ∧ (p.entries.get "content").isFilled = true ∧
        Schema.NamedBy (Schema.BodyRefers (.ofEntries p.entries)) name := by
  have htype : ∃ place, parameterType p place = .ok m.type := by
    obtain ⟨t, ht, h⟩ := bind_eq_ok.mp h
    obtain ⟨comment, -, h⟩ := bind_eq_ok.mp h
    split at h
    · cases h
      exact ⟨_, ht⟩
    · cases h
  obtain ⟨place, htype⟩ := htype
  unfold parameterType at htype
  split at htype
  · rename_i s hs
    exact .inl ⟨s, hs, Schema.typeOf_names s _ _ htype name hname⟩
  · rename_i hnone
    split_ifs at htype with hfilled
    · exact .inr ⟨hnone, hfilled, Schema.contentType_names htype hname⟩
    · rw [← Except.ok.inj htype] at hname
      cases hname

theorem pathMember_names {placeholder operationId : String} {parameters : List Parameter}
    {s u : Log} {m : Member} (h : Returns (pathMember placeholder parameters operationId) s m u)
    (hname : name ∈ m.type.names) :
    ∃ p s, parameters.find? (·.hasName placeholder) = some p ∧
      p.entries.get? "schema" = some s ∧ Schema.NamedBy (Schema.Refers s) name := by
  rcases pathMember_returns h with ⟨p, s, hp, hs, ht, -, -⟩ | ⟨-, rfl⟩
  · exact ⟨p, s, hp, hs, Schema.typeOf_names s _ _ ht name hname⟩
  · cases hname

theorem idType_names {placeholder operationId : String} {parameters : List Parameter}
    (h : idType placeholder parameters operationId = .ok t) (hname : name ∈ t.names) :
    ∃ p, parameters.find? (·.hasName placeholder) = some p ∧
      Schema.NamedBy (Schema.Refers (p.entries.get "schema")) name := by
  rcases idType_cases h with ⟨-, rfl⟩ | ⟨p, hp, htype⟩
  · cases hname
  · refine ⟨p, hp, ?_⟩
    split_ifs at htype
    · exact Schema.typeOf_names _ _ _ htype name hname
    · rw [htype] at hname
      cases hname

section Plan

variable {parameters : List Parameter} (hparameters : c.HasParameters components parameters)
include hparameters

theorem queryMembers_names {location : String} {members : List Member}
    (h : (parameters.filter (·.isIn "query")).mapM (queryMember · location) = .ok members)
    {m : Member} (hm : m ∈ members) (hname : name ∈ m.type.names) :
    Schema.NamedBy (fun ref =>
      c.Refers components options ref ∨ c.RefersByParameter components ref) name := by
  obtain ⟨p, hp, hmember⟩ := exists_left_of_forall₂ (mapM_eq_ok.mp h) hm
  obtain ⟨hp, hquery⟩ := List.mem_filter.mp hp
  rcases queryMember_names hmember hname with ⟨s, hs, hnamed⟩ | ⟨hnone, hcontent, hnamed⟩
  · exact hnamed.mono fun ref hr => .inl (.query hparameters hp hquery hs hr)
  · refine hnamed.mono fun ref hr => ?_
    cases hr with
    | here href => exact .inr ⟨parameters, hparameters, p, hp, hquery, hnone, hcontent, href⟩
    | media href hmedia hr => exact .inl (.content hparameters hp hquery hnone href hmedia hr)

theorem pathMembers_names {route operationId : String} {members : List Member} {s t : Log}
    (hroute : c.route = .str route)
    (h : Returns (((Route.of route c.verb options).parameters c.verb).mapM fun name =>
      pathMember name (parameters.filter (·.isIn "path")) operationId) s members t)
    {m : Member} (hm : m ∈ members) (hname : name ∈ m.type.names) :
    Schema.NamedBy (c.Refers components options) name := by
  obtain ⟨placeholder, hplaceholder, u, v, hmember⟩ := mem_of_returns_mapM h hm
  obtain ⟨p, s, hp, hs, hnamed⟩ := pathMember_names hmember hname
  exact hnamed.mono fun ref hr => .path hparameters hroute hplaceholder hp hs hr

end Plan

theorem plan_names {p : Plan} (h : c.HasPlan components options p) (ht : t ∈ p.expressions)
    (hname : name ∈ t.names) : Schema.NamedBy (fun ref =>
      c.Refers components options ref ∨ c.RefersByParameter components ref) name := by
  obtain ⟨id, s, u, -, h⟩ := h
  obtain ⟨route, parameters, v, hmade⟩ := plan_returns h
  have hparameters : c.HasParameters components parameters := ⟨s, v, hmade.merged⟩
  have hmembers := hmade.types.pathMembers
  have hid := hmade.types.id
  rw [hmade.pathParameters, hmade.route] at hmembers
  rw [hmade.route] at hid
  have hread {refs : String → Prop} (hnamed : Schema.NamedBy refs name)
      (hrefs : ∀ ref, refs ref → c.Refers components options ref) :
      Schema.NamedBy (fun ref =>
        c.Refers components options ref ∨ c.RefersByParameter components ref) name :=
    hnamed.mono fun ref hr => .inl (hrefs ref hr)
  simp only [Plan.expressions, List.mem_append, List.mem_cons, List.not_mem_nil, or_false,
    List.mem_map, Option.mem_toList] at ht
  -- answer, error, body, members of the path, members of the query, type of the id
  rcases ht with (((rfl | rfl | rfl) | ⟨m, hm, rfl⟩) | ⟨m, hm, rfl⟩) | ht
  · obtain ⟨responses, response, hresponses, hresponse, hr⟩ := hmade.types.response
    cases Value.entriesOrNone_ok hresponses
    rw [hr] at hname
    obtain ⟨e, he, hcode, hnamed⟩ := answers_names hresponse rfl hname
    exact hread hnamed fun ref => .answer he (.inl hcode)
  · obtain ⟨responses, error, hresponses, herror, hr⟩ := hmade.types.error
    cases Value.entriesOrNone_ok hresponses
    rw [hr] at hname
    obtain ⟨e, he, hcode, hnamed⟩ := answers_names herror rfl hname
    exact hread hnamed fun ref => .answer he (.inr hcode)
  · exact hread (Schema.contentType_names hmade.types.body hname) fun ref => .body
  · exact hread (pathMembers_names hparameters hmade.routeText hmembers hm hname) fun ref hr => hr
  · exact queryMembers_names hparameters hmade.types.queryMembers hm hname
  · obtain ⟨placeholder, hplaceholder, htype⟩ := hid t ht
    obtain ⟨p, hp, hnamed⟩ := idType_names htype hname
    exact hread hnamed fun ref => .id hparameters hmade.routeText hplaceholder hp

end ApiBindings.Operation
