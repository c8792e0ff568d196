import Mathlib
import ApiBindings.Proofs.Operation.Synthetic
import ApiBindings.Proofs.Schema.Resolve

/-!
The placeholder that a deletion takes. Main statement: it has the type that it has as a path
parameter without hooks, unless the first parameter of its name is in another position or has an
empty schema.
-/

namespace ApiBindings

theorem find?_filter_of_find? {α : Type} {p q : α → Bool} {xs : List α} {x : α}
    (h : xs.find? q = some x) (hp : p x = true) : (xs.filter p).find? q = some x := by
  induction xs with
  | nil => cases h
  | cons y xs ih =>
    by_cases hy : q y = true
    · rw [List.find?_cons_of_pos hy] at h
      cases h
      rw [List.filter_cons_of_pos hp, List.find?_cons_of_pos hy]
    · rw [List.find?_cons_of_neg hy] at h
      by_cases hfilter : p y = true
      · rw [List.filter_cons_of_pos hfilter, List.find?_cons_of_neg hy, ih h]
      · rw [List.filter_cons_of_neg hfilter, ih h]

namespace Schema

theorem render_ne_string {schema : Value} {location : String} {t : TypeExpr}
    (hempty : schema.isFilled = false) (h : typeOf schema location = .ok t) :
    t.render ≠ "string" := by
  have hany (other : Value) (hother : ∀ label es, other ≠ .map label es)
      (h : typeOf other location = .ok t) : t.render ≠ "string" := by
    rw [typeOf] at h
    · cases h
      decide
    · exact hother
  cases schema with
  | map label es =>
    obtain rfl : es = [] := by simpa [Value.isFilled] using hempty
    have hobject : objectType [] location = .ok .emptyShape := by
      rw [objectType]
      rfl
    rw [typeOf_mapping rfl, mappingType] at h
    change (objectType [] location >>= _) = _ at h
    rw [hobject] at h
    cases h
    decide
  | _ => exact hany _ (by simp) h

end Schema

namespace Operation

def Parameter.schema (p : Parameter) : Value := p.entries.get "schema"

def Parameter.Shows (p : Parameter) (type : String) : Prop :=
  if p.schema.isFilled then ∃ t, Schema.typeOf p.schema "#" = .ok t ∧ t.render = type
  else type = "string"

def Parameter.HasEmptySchema (p : Parameter) : Prop :=
  ∃ schema, p.entries.get? "schema" = some schema ∧ schema.isFilled = false

theorem idType_ok {name operationId : String} {parameters : List Parameter} {type : TypeExpr}
    (h : idType name parameters operationId = .ok type) :
    parameters = [] ∧ type.render = "string" ∨
      ∃ p, parameters.find? (·.hasName name) = some p ∧ p.Shows type.render := by
  rcases idType_cases h with ⟨hnone, rfl⟩ | ⟨p, hp, htype⟩
  · exact .inl ⟨hnone, rfl⟩
  · refine .inr ⟨p, hp, ?_⟩
    unfold Parameter.Shows Parameter.schema
    split_ifs at htype ⊢
    · exact ⟨type, htype, rfl⟩
    · rw [htype]
      rfl

theorem pathMember_shows_iff {name operationId : String} {parameters : List Parameter}
    {s t : Log} {m : Member} {p : Parameter} {type : String}
    (h : Returns (pathMember name (parameters.filter (·.isIn "path")) operationId) s m t)
    (hp : parameters.find? (·.hasName name) = some p) (hpath : p.isIn "path" = true)
    (htype : p.Shows type) : type = m.type.render ↔ ¬ p.HasEmptySchema := by
  have hfound : (parameters.filter (·.isIn "path")).find? (·.hasName name) = some p :=
    find?_filter_of_find? hp hpath
  unfold Parameter.Shows Parameter.schema at htype
  rcases pathMember_returns h with ⟨q, schema, hq, hschema, hm, -, -⟩ | ⟨hnone, rfl⟩
  · cases hfound.symm.trans hq
    have hget : p.entries.get "schema" = schema := by rw [Entries.get, hschema, Option.getD_some]
    rw [hget] at htype
    cases hfilled : schema.isFilled with
    | true =>
      rw [if_pos hfilled] at htype
      obtain ⟨t, ht, rfl⟩ := htype
      cases hm.symm.trans ht
      refine iff_of_true rfl ?_
      rintro ⟨other, hother, hempty⟩
      cases hschema.symm.trans hother
      rw [hfilled] at hempty
      cases hempty
    | false =>
      rw [if_neg (by simp [hfilled])] at htype
      subst htype
      exact iff_of_false (Schema.render_ne_string hfilled hm).symm
        (not_not_intro ⟨schema, hschema, hfilled⟩)
  · have hmissing : p.entries.get? "schema" = none := hnone p hfound
    have hget : p.entries.get "schema" = .null := by rw [Entries.get, hmissing, Option.getD_none]
    rw [hget, if_neg (by decide)] at htype
    subst htype
    refine iff_of_true rfl ?_
    rintro ⟨other, hother, -⟩
    cases hmissing.symm.trans hother

theorem plan_idType {components : Value} {options : Options} {c : Call} {id : Scalar} {s t : Log}
    {p : Plan} {name : String} (hid : p.route.idParam = some name)
    (h : Returns (c.plan components options id) s p t) :
    ∃ parameters u type, Returns (mergeParameters components c.routeParameters
        (c.operation.get "parameters")) s parameters u ∧
      p.types.id = some type ∧ idType name parameters id.text = .ok type := by
  obtain ⟨text, parameters, u, hmade⟩ := plan_returns h
  have hids := hmade.types.id
  have hsome := hmade.types.idGiven
  rw [hid] at hids hsome
  obtain ⟨type, htype⟩ := Option.isSome_iff_exists.mp hsome
  obtain ⟨_, ⟨⟩, hok⟩ := hids type htype
  exact ⟨parameters, u, type, hmade.merged, htype, hok⟩

structure PathMembers (m : Metadata) (members : List Member) : Prop where
  text : m.paramsTypes = Text.joinWith ";\n  " (members.map Member.text)
  keys : members.map Member.key = m.paramsInPath
  distinct : m.paramsInPath.Nodup

variable {components : Value} {on off : Options} {c : Call} {s t s' t' : Session} {b b' : Bound}
  {route name : String}

/-- The placeholder that a deletion takes if hooks are written is a path parameter if not. It has
the same type then, unless the first parameter of its name, wherever that is, has an empty schema or
is in another position, and it has the type of that parameter. -/
theorem bind_idType (hoff : off.bindings = false) (hroute : c.route = .str route)
    (hdistinct : (Naming.placeholders route).Nodup)
    (h : Returns (bind components on c) s b t) (h' : Returns (bind components off c) s' b' t')
    (hid : b.metadata.idParam = some name) :
    ∃ parameters members, ∃ m ∈ members, ∃ type,
      (∃ u v, Returns (mergeParameters components c.routeParameters
        (c.operation.get "parameters")) u parameters v) ∧
      PathMembers b'.metadata members ∧ m.key = name ∧ b.metadata.idType = some type ∧
      (parameters = [] ∧ type = m.type.render ∨
        ∃ p, parameters.find? (·.hasName name) = some p ∧ p.Shows type ∧
          (p.isIn "path" = true → (type = m.type.render ↔ ¬ p.HasEmptySchema))) := by
  obtain ⟨-, -, hcut, -⟩ := bind_route hroute h
  obtain ⟨-, -, huncut, hpath⟩ := bind_route hroute h'
  have hall : b'.metadata.paramsInPath = Naming.placeholders route := by
    rw [hpath, huncut, Route.idParam_of, hoff, List.filter_eq_self]
    simp
  have hname : name ∈ b'.metadata.paramsInPath := by
    rw [hall]
    exact Route.idParam_mem (hcut ▸ hid)
  obtain ⟨id, p, log, u, hbound⟩ := bind_steps h
  obtain ⟨id', p', log', u', hbound'⟩ := bind_steps h'
  cases hbound.called.symm.trans hbound'.called
  rw [hbound.metadata] at hid
  obtain ⟨parameters, v, type, hmerged, htype, hidType⟩ := plan_idType hid hbound.planned
  obtain ⟨parameters', v', hisOf, hmerged'⟩ := plan_usage hbound'.planned
  cases (steady_mergeParameters _ _ _).eq_of_returns hmerged hmerged'
  rw [hbound'.metadata] at hname
  obtain ⟨m, hm, hkey, w, x, hmember⟩ := exists_right_of_forall₂ hisOf.path hname
  refine ⟨parameters, p'.types.pathMembers, m, hm, type.render, ⟨_, _, hmerged⟩,
    ⟨?_, ?_, ?_⟩, hkey, ?_, ?_⟩
  · rw [hbound'.metadata]
    rfl
  · rw [hbound'.metadata]
    exact hisOf.keys
  · rw [hall]
    exact hdistinct
  · rw [hbound.metadata]
    exact congrArg (Option.map TypeExpr.render) htype
  · rcases idType_ok hidType with ⟨rfl, htext⟩ | ⟨q, hq, hshows⟩
    · rcases pathMember_returns hmember with ⟨q, schema, hfound, -⟩ | ⟨-, rfl⟩
      · cases hfound
      · exact .inl ⟨rfl, htext⟩
    · exact .inr ⟨q, hq, hshows, fun hin => pathMember_shows_iff hmember hq hin hshows⟩

/-- The parameter of the header is found before that of the path. -/
def petDeletion : Call where
  operation := [(.str "operationId", .str "deletePet"), (.str "parameters", .list [
    .ofEntries [(.str "name", .str "id"), (.str "in", .str "header"),
      (.str "schema", .ofEntries [(.str "$ref", .str "#/components/schemas/PetId")])],
    .ofEntries [(.str "name", .str "id"), (.str "in", .str "path"), (.str "required", .bool true),
      (.str "schema", .ofEntries [(.str "type", .str "string")])]])]
  verb := "delete"
  route := .str "/pets/\x7bid\x7d"
  routeParameters := .null

def typesOnly : Options := ⟨false, none, none, none⟩

theorem petDeletion_taken : ∃ b t, Returns (bind .null .default petDeletion) .start b t ∧
    (b.metadata.idParam, b.metadata.idType) = (some "id", some "PetId") :=
  exists_of_map_eq_some (by decide +kernel)

theorem petDeletion_kept : ∃ b t, Returns (bind .null typesOnly petDeletion) .start b t ∧
    b.metadata.paramsTypes = "id: string" :=
  exists_of_map_eq_some (by cbv)

theorem bind_idType_petDeletion :
    (Naming.placeholders "/pets/\x7bid\x7d").Nodup ∧ ∃ b t b' t',
      Returns (bind .null .default petDeletion) .start b t ∧
      Returns (bind .null typesOnly petDeletion) .start b' t' ∧ b.metadata.idParam = some "id" ∧
      ∃ parameters members, ∃ m ∈ members, ∃ type,
        (∃ u v, Returns (mergeParameters .null petDeletion.routeParameters
          (petDeletion.operation.get "parameters")) u parameters v) ∧
        PathMembers b'.metadata members ∧ m.key = "id" ∧ b.metadata.idType = some type ∧
        (parameters = [] ∧ type = m.type.render ∨
          ∃ p, parameters.find? (·.hasName "id") = some p ∧ p.Shows type ∧
            (p.isIn "path" = true → (type = m.type.render ↔ ¬ p.HasEmptySchema))) := by
  have hdistinct : (Naming.placeholders "/pets/\x7bid\x7d").Nodup := by decide
  obtain ⟨b, t, h, hid⟩ := petDeletion_taken
  obtain ⟨b', t', h', -⟩ := petDeletion_kept
  have hparam : b.metadata.idParam = some "id" := congrArg Prod.fst hid
  exact ⟨hdistinct, b, t, b', t', h, h', hparam, bind_idType rfl rfl hdistinct h h' hparam⟩

theorem petDeletion_differs :
    (Naming.placeholders "/pets/\x7bid\x7d").Nodup ∧ ∃ b t b' t',
      Returns (bind .null .default petDeletion) .start b t ∧
      Returns (bind .null typesOnly petDeletion) .start b' t' ∧ b.metadata.idParam = some "id" ∧
      b.metadata.idType = some "PetId" ∧ b'.metadata.paramsTypes = "id: string" := by
  obtain ⟨b, t, h, hid⟩ := petDeletion_taken
  obtain ⟨b', t', h', hkept⟩ := petDeletion_kept
  exact ⟨by decide, b, t, b', t', h, h', congrArg Prod.fst hid, congrArg Prod.snd hid,
    hkept⟩

end Operation

end ApiBindings
