import ApiBindings.Proofs.Declaration.Unmarked
import ApiBindings.Proofs.Operation.Parameters
import ApiBindings.Proofs.Operation.References
import ApiBindings.Proofs.Operation.Route

/-!
Operations without markers. Main statement: no marker is in the parts that the code of an operation
is written from.
-/

namespace ApiBindings.Operation

open Text (markers Occurs Quiet Fence Stopless)
open Declaration (Statement Block)

variable {m location : String}

structure Member.Clear (m : String) (x : Member) : Prop where
  comment : Quiet m x.comment
  key : Quiet m x.key
  type : x.type.Clear m

/-- No marker is in the parts that the operation is written from, and no name ends one. -/
structure Plan.Clear (m : String) (p : Plan) : Prop where
  name : Stopless p.name
  route : ¬ Occurs m p.route.template
  idParam : ∀ x ∈ p.route.idParam, Stopless x
  pathParameters : ∀ x ∈ p.pathParameters, Stopless x
  description : ¬ Occurs m p.description
  response : p.types.response.Clear m
  error : p.types.error.Clear m
  body : p.types.body.Clear m
  pathMembers : ∀ x ∈ p.types.pathMembers, x.Clear m
  queryMembers : ∀ x ∈ p.types.queryMembers, x.Clear m
  id : ∀ t ∈ p.types.id, t.Clear m

theorem componentName_stopless {id : Scalar} {name : String} (h : componentName id = .ok name) :
    Stopless name := by
  obtain ⟨whole, hwhole, h⟩ := bind_eq_ok.mp h
  cases pure_eq_ok.mp h
  intro c hc hmem
  rw [String.toList_ofList] at hmem
  exact Naming.stopless_pascalCaseOf hwhole c hc (Text.mem_of_mem_erase hmem)

section Parts

variable (hm : m ∈ markers)
include hm

theorem describe_clear {operation : Entries} {text : String}
    (hoperation : operation.Throughout (Scalar.Clear m) fun _ => True)
    (h : describe operation = .ok text) : ¬ Occurs m text := by
  have hsummary := hoperation.get (Value.lasting_clear hm) "summary"
  have hdetails := hoperation.get (Value.lasting_clear hm) "description"
  have hplain {v : Value} (hv : v.Clear m) (h : describe.plain v = .ok text) :
      ¬ Occurs m text := by
    unfold describe.plain at h
    split at h
    · cases h
      exact (Value.throughout_scalar.mp hv : Text.Clear m text).lacks
    · cases h
  unfold describe at h
  dsimp only at h
  split_ifs at h
  · cases h
    have hgap : Fence m "\n\n" := Text.fence_given hm (by decide)
    exact hgap.not_occurs (Value.clear_text hm hsummary).lacks (Value.clear_text hm hdetails).lacks
  · exact hplain hsummary h
  · exact hplain hdetails h
  · cases h
    exact fun ho => Text.marker_ne_empty hm ho.eq_empty

theorem route_clear {route : String} (h : ¬ Occurs m route) (verb : String) (options : Options) :
    ¬ Occurs m (Route.of route verb options).template ∧
      ∀ x ∈ (Route.of route verb options).idParam, Stopless x := by
  have hwhole := Naming.not_occurs_interpolated hm h
  rcases Route.of_cases route verb options with hroute | ⟨before, name, -, -, hcut, hroute⟩
  · rw [hroute]
    exact ⟨hwhole, fun x hx => nomatch hx⟩
  · rw [hroute]
    obtain ⟨hpart, -, hname⟩ := Naming.cutLast?_ok hcut
    exact ⟨fun ho => hwhole (ho.trans hpart), fun x hx => Option.some.inj hx ▸ hname⟩

theorem answers_clear {responses : Entries} {accepts : Scalar → Bool} {found : Option TypeExpr}
    {fallback : TypeExpr} (hresponses : ∀ e ∈ responses, e.2.Clear m)
    (hfallback : fallback.Clear m) (h : answers responses accepts location = .ok found) :
    (found.getD fallback).Clear m := by
  cases found with
  | none => exact hfallback
  | some t =>
    exact Schema.contentUnion_clear hm (fun e he => hresponses e (List.mem_of_mem_filter he)) h

section Parameters

variable {p : Parameter} (hp : p.entries.Throughout (Scalar.Clear m) fun _ => True)
include hp

theorem parameterType_clear {t : TypeExpr} (h : parameterType p location = .ok t) :
    t.Clear m := by
  unfold parameterType at h
  split at h
  · rename_i schema hschema
    exact Schema.typeOf_clear hm schema (hp.find? hschema) location t h
  · split_ifs at h
    · exact Schema.contentType_clear hm (Value.throughout_map.mpr hp) h
    · cases h
      exact Schema.any_clear hm

theorem comment_quiet {comment : String} {tab : Nat}
    (h : Naming.docCommentOf (p.entries.get "description") tab = .ok comment) :
    Quiet m comment :=
  Declaration.docCommentOf_quiet hm (hp.get (Value.lasting_clear hm) "description") h

theorem queryMember_clear {x : Member} (h : queryMember p location = .ok x) : x.Clear m := by
  obtain ⟨t, ht, h⟩ := bind_eq_ok.mp h
  obtain ⟨comment, hcomment, h⟩ := bind_eq_ok.mp h
  have hname : ((p.entries.get? "name").getD (.str "")).Clear m := by
    cases hfound : p.entries.get? "name" with
    | none => exact Value.clear_empty hm
    | some v => exact hp.find? hfound
  split at h
  · rename_i key hkey
    cases pure_eq_ok.mp h
    rw [hkey] at hname
    exact ⟨comment_quiet hm hp hcomment,
      Naming.quiet_propertyKey hm (Value.throughout_scalar.mp hname : Text.Clear m key),
      parameterType_clear hm hp ht⟩
  · cases h

end Parameters

section PathParameters

variable {parameters : List Parameter}
  (hparameters : ∀ p ∈ parameters, p.entries.Throughout (Scalar.Clear m) fun _ => True)
include hparameters

theorem pathMember_clear {name operationId : String} {x : Member} {s t : Log}
    (hname : Stopless name) (h : Returns (pathMember name parameters operationId) s x t) :
    x.Clear m := by
  have htext : (textMember name).Clear m :=
    ⟨.empty m, hname.quiet hm, TypeExpr.clear_primitive hm (by decide)⟩
  rcases pathMember_returns h with ⟨p, schema, hp, hschema, htype, hcomment, hkey⟩ | ⟨-, rfl⟩
  · have hentries := hparameters p (List.mem_of_find?_eq_some hp)
    exact ⟨comment_quiet hm hentries hcomment, hkey ▸ hname.quiet hm,
      Schema.typeOf_clear hm schema (hentries.find? hschema) _ x.type htype⟩
  · exact htext

theorem idType_clear {name operationId : String} {t : TypeExpr}
    (h : idType name parameters operationId = .ok t) : t.Clear m := by
  have htext : TypeExpr.string.Clear m := TypeExpr.clear_primitive hm (by decide)
  rcases idType_cases h with ⟨-, rfl⟩ | ⟨p, hp, htype⟩
  · exact htext
  · have hentries := hparameters p (List.mem_of_find?_eq_some hp)
    split_ifs at htype
    · exact Schema.typeOf_clear hm _ (hentries.get (Value.lasting_clear hm) "schema") "#" t htype
    · rw [htype]
      exact htext

end PathParameters

/-- No marker is in the parts that an operation is written from if none is in the document. -/
theorem plan_clear {components : Value} {options : Options} {c : Call} {p : Plan}
    (hcomponents : (components.members.get "parameters").Clear m) (hroute : c.route.Clear m)
    (hoperation : c.operation.Throughout (Scalar.Clear m) fun _ => True)
    (hshared : c.routeParameters.Clear m) (h : c.HasPlan components options p) : p.Clear m := by
  have hlasting := Value.lasting_clear hm
  obtain ⟨id, s, t, -, h⟩ := h
  obtain ⟨text, parameters, u, hmade⟩ := plan_returns h
  have hread := mergeParameters_throughout hlasting hcomponents hshared
    (hoperation.get hlasting "parameters") hmade.merged
  have hfiltered (position : String) : ∀ q ∈ parameters.filter (·.isIn position),
      q.entries.Throughout (Scalar.Clear m) fun _ => True :=
    fun q hq => hread q (List.mem_of_mem_filter hq)
  have hanswers := (hoperation.get hlasting "responses").members hlasting
  have hall {responses : Entries}
      (hresponses : (c.operation.get "responses").entriesOrNone = .ok responses) :
      ∀ e ∈ responses, e.2.Clear m := by
    rw [← Value.entriesOrNone_ok hresponses] at hanswers
    exact fun e he => (hanswers.2 e he).2
  rw [hmade.routeText] at hroute
  obtain ⟨htemplate, hcut⟩ := route_clear hm (hroute : Text.Clear m text).lacks c.verb options
  have hplaceholders : ∀ x ∈ p.pathParameters, Stopless x := by
    rw [hmade.pathParameters]
    exact fun x hx => Naming.stopless_of_mem_placeholders (List.mem_of_mem_filter hx)
  refine ⟨componentName_stopless hmade.name, ?_, ?_, hplaceholders, describe_clear hm hoperation
    hmade.description, ?_, ?_, ?_, fun x hx => ?_, fun x hx => ?_, fun t ht => ?_⟩
  · rw [hmade.route]
    exact htemplate
  · rw [hmade.route]
    exact hcut
  · obtain ⟨responses, response, hresponses, hresponse, hr⟩ := hmade.types.response
    rw [hr]
    exact answers_clear hm (hall hresponses) (TypeExpr.clear_primitive hm (by decide)) hresponse
  · obtain ⟨responses, error, hresponses, herror, hr⟩ := hmade.types.error
    rw [hr]
    exact answers_clear hm (hall hresponses) (TypeExpr.clear_primitive hm (by decide)) herror
  · exact Schema.contentType_clear hm (hoperation.get hlasting "requestBody") hmade.types.body
  · obtain ⟨name, hmem, v, w, hmember⟩ := mem_of_returns_mapM hmade.types.pathMembers hx
    exact pathMember_clear hm (hfiltered "path") (hplaceholders name hmem) hmember
  · obtain ⟨q, hq, hmember⟩ := exists_left_of_forall₂ (mapM_eq_ok.mp hmade.types.queryMembers) hx
    exact queryMember_clear hm (hfiltered "query" q hq) hmember
  · obtain ⟨name, -, htype⟩ := hmade.types.id t ht
    exact idType_clear hm hread htype

end Parts

end ApiBindings.Operation
