import ApiBindings.Proofs.Declaration.Registered
import ApiBindings.Proofs.Declaration.Steady
import ApiBindings.Proofs.Document.Entries
import ApiBindings.Proofs.Schema.Resolve
import ApiBindings.Operation.Bind

/-!
Operations that are bound: the plan behind what is written of an operation, and the names that
binding it registers.
-/

namespace ApiBindings.Operation

open Declaration (Statement Block)

theorem claimId_returns {c : Call} {s t : Session} {id : Scalar} (h : Returns (claimId c) s id t) :
    c.id = .ok id ∧ s.operationIds.any id.isKey = false ∧
      t = { s with operationIds := s.operationIds ++ [id] } := by
  rw [claimId] at h
  obtain ⟨id', hid, h⟩ := returns_lift_bind.mp h
  obtain ⟨v, u, hget, h⟩ := returns_bind.mp h
  obtain ⟨rfl, rfl⟩ := returns_get.mp hget
  dsimp only at h
  split_ifs at h with hseen
  · exact absurd h not_returns_throw
  · obtain ⟨_, u, hmod, h⟩ := returns_bind.mp h
    obtain ⟨rfl, rfl⟩ := returns_pure.mp h
    exact ⟨hid, by simpa using hseen, (returns_modify.mp hmod).symm⟩

theorem steady_lookUpParameter (components item : Value) :
    Steady .operations (lookUpParameter components item) := by
  unfold lookUpParameter
  split
  · split
    · exact .pure _
    · refine .bind (.lift _) fun ref => ?_
      split
      · exact .throw _
      · refine .bind (.lift _) fun es => .bind (.lift _) fun shared => ?_
        split
        · exact .bind (.tell rfl) fun _ => .pure _
        · exact .pure _
  · exact .pure _

theorem steady_mergeParameters (components ofRoute ofOperation : Value) :
    Steady .operations (mergeParameters components ofRoute ofOperation) := by
  unfold mergeParameters
  refine .bind (.lift _) fun xs => .bind (.lift _) fun ys => ?_
  refine .foldlM _ (fun merged item => ?_) []
  refine .bind (steady_lookUpParameter components item) fun found => ?_
  split
  · exact .pure _
  · refine .bind (.lift _) fun es => .bind (.lift _) fun p => ?_
    exact .pure _

theorem steady_pathMember (name : String) (parameters : List Parameter) (operationId : String) :
    Steady .operations (pathMember name parameters operationId) := by
  have hundeclared : Steady .operations (do
      Telling.tell (undeclared name operationId)
      return textMember name) :=
    .bind (.tell rfl) fun _ => .pure _
  unfold pathMember
  split
  · split
    · refine .bind (.lift _) fun t => .bind (.lift _) fun comment => ?_
      exact .pure _
    · exact hundeclared
  · exact hundeclared

theorem steady_typesOf (operation : Entries) (parameters : List Parameter)
    (placeholders : List String) (idParam : Option String) (operationId location : String) :
    Steady .operations
      (typesOf operation parameters placeholders idParam operationId location) := by
  unfold typesOf
  refine .bind (.lift _) fun responses => ?_
  refine .bind (.lift _) fun response => ?_
  refine .bind (.lift _) fun error => ?_
  refine .bind (.lift _) fun body => ?_
  refine .bind (.mapM fun name _ => steady_pathMember name _ _) fun pathMembers => ?_
  refine .bind (.mapM fun p _ => .lift _) fun queryMembers => ?_
  dsimp only
  split
  · refine .bind (.lift _) fun t => .bind (.pure _) fun id => ?_
    exact .pure _
  · exact .bind (.pure _) fun id => .pure _

theorem steady_plan (c : Call) (components : Value) (options : Options) (id : Scalar) :
    Steady .operations (c.plan components options id) := by
  unfold Call.plan
  refine .bind (.lift _) fun name => .bind (.lift _) fun route => ?_
  refine .bind (steady_mergeParameters _ _ _) fun parameters => ?_
  refine .bind (steady_typesOf _ _ _ _ _ _) fun types => ?_
  exact .bind (.lift _) fun description => .pure _

theorem forM_registers {names : List String} {origin : String} {s t : Session} {a : Unit}
    (h : Returns (names.forM fun name => Declaring.register name origin) s a t) :
    Registers s names t := by
  induction names generalizing s with
  | nil =>
    obtain ⟨-, rfl⟩ := returns_pure.mp h
    exact .refl s
  | cons name names ih =>
    obtain ⟨_, u, hname, hrest⟩ := returns_bind.mp h
    exact (Registers.register hname).trans (ih hrest)

theorem textKeyed_ok {es operation : Entries} (h : textKeyed (.ofEntries es) = .ok operation) :
    operation = es := by
  unfold textKeyed Value.ofEntries at h
  dsimp only at h
  split_ifs at h
  cases h
  rfl

/-- The steps of binding an operation: its id is remembered, its plan is made, its names are
registered, and what is written of it follows from the plan. -/
structure Bound.Made (components : Value) (options : Options) (c : Call) (id : Scalar) (p : Plan)
    (s : Session) (log : Log) (u : Session) (b : Bound) (t : Session) : Prop where
  called : c.id = .ok id
  fresh : s.operationIds.any id.isKey = false
  planned : Returns (c.plan components options id) s.log p log
  named : Returns (p.declaredNames.forM fun name =>
    Declaring.register name (location c.route c.verb))
    { s with operationIds := s.operationIds ++ [id], log := log } () u
  told : ∃ event, t = { u with log := u.log ++ [event] } ∧ event.topic = .operations ∧
    event.level = .debug
  metadata : b.metadata = p.metadata c.operation
  declared : b.declared = p.block
  hooks : bindingsOf b.metadata options = .ok b.hooks

theorem bind_steps {components : Value} {options : Options} {c : Call} {s t : Session}
    {b : Bound} (h : Returns (bind components options c) s b t) :
    ∃ id p log u, b.Made components options c id p s log u t := by
  rw [bind] at h
  obtain ⟨id, u, hclaim, h⟩ := returns_bind.mp h
  obtain ⟨plan, v, htold, h⟩ := returns_bind.mp h
  obtain ⟨_, w, hnames, h⟩ := returns_bind.mp h
  obtain ⟨operation, hoperation, h⟩ := returns_lift_bind.mp h
  obtain ⟨hooks, hhooks, h⟩ := returns_lift_bind.mp h
  obtain ⟨_, x, htell, h⟩ := returns_bind.mp h
  obtain ⟨rfl, rfl⟩ := returns_pure.mp h
  obtain ⟨hid, hfresh, rfl⟩ := claimId_returns hclaim
  obtain ⟨log, hplan, rfl⟩ := returns_telling.mp htold
  cases textKeyed_ok hoperation
  exact ⟨id, plan, log, w, hid, hfresh, hplan, hnames, ⟨_, (returns_modify.mp htell).symm,
    rfl, rfl⟩, rfl, rfl, hhooks⟩

theorem Bound.Made.registers {components : Value} {options : Options} {c : Call} {id : Scalar}
    {p : Plan} {log : Log} {s t u : Session} {b : Bound}
    (h : b.Made components options c id p s log u t) : Registers s p.declaredNames t := by
  obtain ⟨event, rfl, -⟩ := h.told
  have hkept := (steady_plan c components options id).kept h.planned
  have hstart : Registers s [] { s with operationIds := s.operationIds ++ [id], log := log } :=
    .none rfl hkept
  have hend : Registers u [] { u with log := u.log ++ [event] } :=
    .none rfl fun e he => List.mem_append_left _ he
  simpa using (hstart.trans (forM_registers h.named)).trans hend

theorem pathMember_cases {name operationId : String} {parameters : List Parameter} {s t : Log}
    {m : Member} (h : Returns (pathMember name parameters operationId) s m t) :
    (∃ p schema, parameters.find? (·.hasName name) = some p ∧
      p.entries.get? "schema" = some schema ∧ Schema.typeOf schema "#" = .ok m.type ∧
      Naming.docCommentOf (p.entries.get "description") 2 = .ok m.comment ∧ m.key = name ∧ s = t) ∨
    (∀ p, parameters.find? (·.hasName name) = some p → p.entries.get? "schema" = none) ∧
      m = textMember name ∧ s ++ [undeclared name operationId] = t := by
  have hundeclared {s t : Log} (h : Returns (do
      Telling.tell (undeclared name operationId)
      return textMember name) s m t) :
      m = textMember name ∧ s ++ [undeclared name operationId] = t := by
    obtain ⟨_, u, htell, h⟩ := returns_bind.mp h
    obtain ⟨hm, rfl⟩ := returns_pure.mp h
    exact ⟨hm.symm, returns_modify.mp htell⟩
  unfold pathMember at h
  split at h
  · rename_i p hp
    split at h
    · rename_i schema hschema
      obtain ⟨type, htype, h⟩ := returns_lift_bind.mp h
      obtain ⟨comment, hcomment, h⟩ := returns_lift_bind.mp h
      obtain ⟨rfl, rfl⟩ := returns_pure.mp h
      exact .inl ⟨p, schema, hp, hschema, htype, hcomment, rfl, rfl⟩
    · rename_i hnone
      refine .inr ⟨fun q hq => ?_, hundeclared h⟩
      cases hp.symm.trans hq
      exact hnone
  · rename_i hnone
    refine .inr ⟨fun q hq => ?_, hundeclared h⟩
    cases hnone.symm.trans hq

theorem pathMember_returns {name operationId : String} {parameters : List Parameter} {s t : Log}
    {m : Member} (h : Returns (pathMember name parameters operationId) s m t) :
    (∃ p schema, parameters.find? (·.hasName name) = some p ∧
      p.entries.get? "schema" = some schema ∧ Schema.typeOf schema "#" = .ok m.type ∧
      Naming.docCommentOf (p.entries.get "description") 2 = .ok m.comment ∧ m.key = name) ∨
    (∀ p, parameters.find? (·.hasName name) = some p → p.entries.get? "schema" = none) ∧
      m = textMember name := by
  rcases pathMember_cases h with ⟨p, schema, hp, hschema, htype, hcomment, hkey, -⟩ | ⟨hnone, hm, -⟩
  · exact .inl ⟨p, schema, hp, hschema, htype, hcomment, hkey⟩
  · exact .inr ⟨hnone, hm⟩

/-- The type of a placeholder that a deletion takes is that of the schema of the first parameter of
its name, or the type of texts where nothing is said of it. -/
theorem idType_cases {name operationId : String} {parameters : List Parameter} {t : TypeExpr}
    (h : idType name parameters operationId = .ok t) :
    parameters = [] ∧ t = .string ∨
      ∃ p, parameters.find? (·.hasName name) = some p ∧
        if (p.entries.get "schema").isFilled then
          Schema.typeOf (p.entries.get "schema") "#" = .ok t
        else t = .string := by
  unfold idType at h
  split_ifs at h with hnone
  · cases h
    exact .inl ⟨List.isEmpty_iff.mp hnone, rfl⟩
  right
  split at h
  · cases h
  rename_i p hp
  refine ⟨p, hp, ?_⟩
  split at h
  · rename_i label es hschema
    rw [hschema]
    cases href : Schema.reference? es with
    | some ref =>
      rw [href] at h
      -- what holds a reference is not empty, so that its type is the one that is looked for
      have hfilled : (Value.map label es).isFilled = true := by
        cases es with
        | nil => cases href
        | cons e es => rfl
      rw [if_pos hfilled, Schema.typeOf_reference href]
      exact Schema.referencedType_of_ok h _
    | none =>
      rw [href] at h
      dsimp only at h
      have hfilled : (Value.map label es).isFilled = !es.isEmpty := rfl
      rw [hfilled, Schema.typeOf_mapping href]
      split_ifs at h with hempty
      · cases h
        simp [hempty]
      · simpa [hempty] using h
  · split_ifs at h with hfilled
    cases h
    rw [if_neg hfilled]

/-- How the types of an operation are read: those of its answers by their codes, that of its body,
the members of its placeholders and of its query, and the type of the placeholder that is taken. -/
structure Types.Read (operation : Entries) (parameters : List Parameter)
    (placeholders : List String) (idParam : Option String) (operationId location : String)
    (s : Log) (types : Types) (t : Log) : Prop where
  response : ∃ responses response, (operation.get "responses").entriesOrNone = .ok responses ∧
    answers responses isSuccess location = .ok response ∧ types.response = response.getD .void
  error : ∃ responses error, (operation.get "responses").entriesOrNone = .ok responses ∧
    answers responses isFailure location = .ok error ∧ types.error = error.getD .unknown
  body : Schema.contentType (operation.get "requestBody") (location ++ "/requestBody") =
    .ok types.body
  pathMembers : Returns (placeholders.mapM fun name =>
    pathMember name (parameters.filter (·.isIn "path")) operationId) s types.pathMembers t
  queryMembers : (parameters.filter (·.isIn "query")).mapM (queryMember · location) =
    .ok types.queryMembers
  id : ∀ type ∈ types.id, ∃ name ∈ idParam, idType name parameters operationId = .ok type
  idGiven : types.id.isSome = idParam.isSome

theorem typesOf_returns {operation : Entries} {parameters : List Parameter}
    {placeholders : List String} {idParam : Option String} {operationId location : String}
    {s t : Log} {types : Types}
    (h : Returns (typesOf operation parameters placeholders idParam operationId location) s
      types t) :
    types.Read operation parameters placeholders idParam operationId location s t := by
  rw [typesOf] at h
  obtain ⟨responses, hresponses, h⟩ := returns_lift_bind.mp h
  obtain ⟨response, hresponse, h⟩ := returns_lift_bind.mp h
  obtain ⟨error, herror, h⟩ := returns_lift_bind.mp h
  obtain ⟨body, hbody, h⟩ := returns_lift_bind.mp h
  obtain ⟨pathMembers, u, hpath, h⟩ := returns_bind.mp h
  obtain ⟨queryMembers, v, hquery, h⟩ := returns_bind.mp h
  obtain ⟨hmembers, rfl⟩ := returns_mapM_lift.mp hquery
  cases idParam with
  | some name =>
    obtain ⟨type, htype, h⟩ := returns_lift_bind.mp h
    obtain ⟨id, w, hid, h⟩ := returns_bind.mp h
    obtain ⟨rfl, rfl⟩ := returns_pure.mp hid
    obtain ⟨rfl, rfl⟩ := returns_pure.mp h
    refine ⟨⟨responses, response, hresponses, hresponse, rfl⟩,
      ⟨responses, error, hresponses, herror, rfl⟩, hbody, hpath, hmembers,
      fun t ht => ⟨name, rfl, ?_⟩, rfl⟩
    cases ht
    exact htype
  | none =>
    obtain ⟨id, w, hid, h⟩ := returns_bind.mp h
    obtain ⟨rfl, rfl⟩ := returns_pure.mp hid
    obtain ⟨rfl, rfl⟩ := returns_pure.mp h
    exact ⟨⟨responses, response, hresponses, hresponse, rfl⟩,
      ⟨responses, error, hresponses, herror, rfl⟩, hbody, hpath, hmembers,
      fun t ht => (nomatch ht), rfl⟩

/-- How the plan of a call is made: for its route and with its parameters, which are merged
first. -/
structure Plan.Made (components : Value) (options : Options) (c : Call) (id : Scalar)
    (text : String) (parameters : List Parameter) (s u : Log) (p : Plan) (t : Log) : Prop where
  routeText : c.route = .str text
  name : componentName id = .ok p.name
  merged : Returns (mergeParameters components c.routeParameters (c.operation.get "parameters")) s
    parameters u
  types : p.types.Read c.operation parameters p.pathParameters p.route.idParam id.text
    (location c.route c.verb) u t
  description : describe c.operation = .ok p.description
  idText : p.id = id.text
  verb : p.verb = c.verb
  route : p.route = Route.of text c.verb options
  pathParameters : p.pathParameters = p.route.parameters c.verb

theorem plan_returns {components : Value} {options : Options} {c : Call} {id : Scalar}
    {s t : Log} {p : Plan} (h : Returns (c.plan components options id) s p t) :
    ∃ text parameters u, p.Made components options c id text parameters s u t := by
  rw [Call.plan] at h
  obtain ⟨name, hname, h⟩ := returns_lift_bind.mp h
  obtain ⟨text, htext, h⟩ := returns_lift_bind.mp h
  obtain ⟨parameters, u, hparameters, h⟩ := returns_bind.mp h
  obtain ⟨types, v, htypes, h⟩ := returns_bind.mp h
  obtain ⟨description, hdescription, h⟩ := returns_lift_bind.mp h
  obtain ⟨rfl, rfl⟩ := returns_pure.mp h
  have hroute : c.route = .str text := Value.scalar.inj (Value.expectText_ok htext)
  exact ⟨text, parameters, u, hroute, hname, hparameters, typesOf_returns htypes, hdescription,
    rfl, rfl, rfl, rfl⟩

theorem Member.text_ne_empty (m : Member) : m.text ≠ "" :=
  fun he => by simpa [Member.text] using congrArg String.length he

theorem joinWith_eq_empty_iff {separator : String} {texts : List String}
    (h : ∀ x ∈ texts, x ≠ "") : Text.joinWith separator texts = "" ↔ texts = [] := by
  refine ⟨fun he => ?_, fun he => he ▸ rfl⟩
  cases texts with
  | nil => rfl
  | cons x texts =>
    have hx : x ≠ "" := h x List.mem_cons_self
    cases texts with
    | nil => exact absurd he hx
    | cons y texts =>
      rw [Text.joinWith, String.append_eq_empty_iff, String.append_eq_empty_iff] at he
      exact absurd he.1.1 hx

theorem plan_pathMembers {components : Value} {options : Options} {c : Call} {id : Scalar}
    {s t : Log} {p : Plan} (h : Returns (c.plan components options id) s p t) :
    Text.joinWith ";\n  " (p.types.pathMembers.map Member.text) = "" ↔
      p.pathParameters = [] := by
  obtain ⟨text, parameters, u, hmade⟩ := plan_returns h
  have hne : ∀ x ∈ p.types.pathMembers.map Member.text, x ≠ "" := by
    intro x hx
    obtain ⟨m, -, rfl⟩ := List.mem_map.mp hx
    exact m.text_ne_empty
  rw [joinWith_eq_empty_iff hne, List.map_eq_nil_iff, ← List.length_eq_zero_iff,
    length_of_returns_mapM hmade.types.pathMembers, List.length_eq_zero_iff]

theorem statements_of_bindingsOf {m : Metadata} {options : Options} {hooks : Block}
    (h : bindingsOf m options = .ok hooks) :
    hooks.statements =
      if options.bindings then ((Hook.ofMode options.encodingMode).block m).statements else [] := by
  have hplain : (if options.bindings then (Hook.ofMode options.encodingMode).block m
      else Block.empty).statements =
      if options.bindings then ((Hook.ofMode options.encodingMode).block m).statements else [] := by
    split_ifs <;> rfl
  unfold bindingsOf at h
  dsimp only at h
  split at h
  · obtain ⟨text, -, h⟩ := bind_eq_ok.mp h
    cases h
    exact hplain
  · cases h
    exact hplain

theorem Plan.names_block (p : Plan) : p.block.names = p.declaredNames := by
  have hcase : ∀ (needed : Bool) (d : Statement), (if needed then [d] else []).map (·.name) =
      if needed then [d.name] else [] := by
    intro needed d
    cases needed <;> rfl
  have hmap : p.block.names = p.statements.map (·.name) := List.map_map
  rw [hmap, Plan.statements, Plan.declaredNames]
  simp only [List.map_append, hcase, Declaration.declareAs_name]
  rfl

end ApiBindings.Operation
