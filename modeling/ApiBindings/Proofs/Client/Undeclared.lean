import ApiBindings.Proofs.Client.Enumeration
import ApiBindings.Proofs.Lint.Declared

/-!
Undeclared placeholders, as the check of a document and the binding of its operations see them. Main
statement: a placeholder that the check warns of is typed as a text, and the two agree on all
placeholders of an operation exactly if each path parameter that declares one has a schema.
-/

namespace ApiBindings.Client

open Operation (Call Options Bound Parameter ListsInline FallsBack declaring? LacksSchema)

variable {document components : Value} {options : Options} {c : Call} {report : Lint.Report}
  {s t : Session} {u v : Log} {b : Bound} {ofRoute ofOperation : List Parameter}

def Warns (report : Lint.Report) (c : Call) (name : String) : Prop :=
  ⟨Lint.undeclaredMessage name, Operation.location c.route c.verb⟩ ∈ report.warnings

theorem httpMethods_of_verbs {verb : String} (h : verb ∈ Operation.verbs) :
    verb ∈ Lint.httpMethods := by
  revert h
  simp only [Operation.verbs, Lint.httpMethods, List.mem_cons]
  tauto

theorem exists_operationAt (htree : document.IsTree) (hc : c ∈ calls document) {id : Scalar}
    (hid : c.id = .ok id) : ∃ route path, c.route = .str route ∧
      Lint.OperationAt document (.str route) c.verb path c.operation ∧
      c.routeParameters = path.get "parameters" := by
  obtain ⟨path, operation, hpath, hoperation, -, hmembers, hparameters⟩ := mem_calls_iff.mp hc
  obtain ⟨route, hroute⟩ := (htree.get "paths").members.1.text _ hpath
  have hroute : c.route = .str route := hroute
  rw [hroute] at hpath
  cases path with
  | map label fields =>
    cases operation with
    | map l es =>
      refine ⟨route, fields, hroute, ⟨label, l, hpath, ?_⟩, hparameters⟩
      rw [hmembers]
      exact hoperation
    | _ =>
      -- what is no mapping has no id
      rw [Call.id, hmembers] at hid
      cases hid
  | _ => cases hoperation

theorem eq_none_iff_lacksSchema {found : Option Parameter} : (found = none ↔ LacksSchema found) ↔
    ∀ q, found = some q → q.entries.has "schema" = true := by
  cases found with
  | none => simp [LacksSchema]
  | some q => simp [LacksSchema, Entries.has, Option.isSome_iff_ne_none]

/-- A placeholder that the check warns of falls back to a text. The other way round this holds of
all placeholders exactly if each path parameter that declares one has a schema: the check takes a
parameter that is described by its content for a declaration, and the binding does not. -/
theorem warns_iff_fallsBack (htree : document.IsTree) (hc : c ∈ calls document)
    (hroute : ListsInline c.routeParameters ofRoute)
    (hoperation : ListsInline (c.operation.get "parameters") ofOperation)
    (hcheck : Returns (Lint.run document false) u report v)
    (hbind : Returns (Operation.bind components options c) s b t)
    (hoff : options.bindings = false) :
    ∃ route id p log, c.route = .str route ∧ c.id = .ok id ∧
      Returns (c.plan components options id) s.log p log ∧ b.metadata = p.metadata c.operation ∧
      (∀ name, Warns report c name → FallsBack s t p name) ∧
      ((∀ name, Warns report c name ↔ FallsBack s t p name) ↔
        ∀ name ∈ Naming.placeholders route, ∀ q,
          declaring? (ofRoute ++ ofOperation) name = some q → q.entries.has "schema" = true) := by
  obtain ⟨_, _, _, _, hbound⟩ := Operation.bind_steps hbind
  obtain ⟨route, path, hr, hat, hparameters⟩ := exists_operationAt htree hc hbound.called
  obtain ⟨id, p, log, hid, hplan, hmeta, -, hfalls⟩ :=
    Operation.bind_fallsBack_iff hbind hoff hr hroute hoperation
  obtain ⟨-, -, -, -, hverb, -⟩ := mem_calls_iff.mp hc
  have hwarns := Lint.check_undeclared_iff htree (Lint.run_returns.mp hcheck).1 hat
    (httpMethods_of_verbs hverb) (hparameters ▸ hroute) hoperation
  refine ⟨route, id, p, log, hr, hid, hplan, hmeta, fun name hname => ?_, ?_⟩
  · rw [Warns, hr, hwarns] at hname
    rw [hfalls]
    refine ⟨hname.1, fun q hq => ?_⟩
    rw [hname.2] at hq
    cases hq
  · simp only [Warns, hr, hwarns, hfalls, and_congr_right_iff]
    exact forall₂_congr fun name _ => eq_none_iff_lacksSchema

section Examples

def withoutHooks : Options := { Options.default with bindings := false }

def petReading (ps : List Parameter) : Call where
  operation := [(.str "operationId", .str "getPet"),
    (.str "parameters", .list (ps.map fun p => .ofEntries p.entries))]
  verb := "get"
  route := .str "/pets/\x7bid\x7d"
  routeParameters := .null

def petDocument (ps : List Parameter) : Value :=
  .ofEntries [(.str "info", .ofEntries [(.str "title", .str "Pets")]),
    (.str "paths", .ofEntries [(.str "/pets/\x7bid\x7d", .ofEntries [
      (.str "get", .ofEntries (petReading ps).operation)])])]

def contentId : Parameter where
  name := .str "id"
  position := .str "path"
  entries := [(.str "name", .str "id"), (.str "in", .str "path"), (.str "content", .ofEntries [
    (.str "application/json", .ofEntries [
      (.str "schema", .ofEntries [(.str "type", .str "integer")])])])]

theorem petDocument_calls (ps : List Parameter) : petReading ps ∈ calls (petDocument ps) :=
  List.mem_singleton_self _

theorem warns_iff_fallsBack_noParameters : (petDocument []).IsTree ∧
    petReading [] ∈ calls (petDocument []) ∧
    ∃ report v b t, Returns (Lint.run (petDocument []) false) [] report v ∧
      Returns (Operation.bind .null withoutHooks (petReading [])) .start b t ∧
      ∃ p, b.metadata = p.metadata (petReading []).operation ∧
        ∀ name, Warns report (petReading []) name ↔ FallsBack .start t p name := by
  have htree : (petDocument []).IsTree := by
    simp only [Value.IsTree, petDocument, petReading, Value.ofEntries, Value.Throughout,
      Value.EntriesThroughout, Value.ItemsThroughout, List.map_nil, and_true, true_and]
    decide
  have hcall := petDocument_calls []
  obtain ⟨report, v, hcheck⟩ : ∃ report v,
      (Lint.run (petDocument []) false).run.run [] = (.ok report, v) :=
    exists_of_isSome (by decide)
  obtain ⟨b, t, hbind⟩ : ∃ b t,
      (Operation.bind .null withoutHooks (petReading [])).run.run .start = (.ok b, t) :=
    exists_of_isSome (by decide +kernel)
  obtain ⟨route, id, p, log, -, -, -, hmeta, -, hagree⟩ := warns_iff_fallsBack htree hcall
    (.inl ⟨rfl, rfl⟩) (.inl ⟨rfl, rfl⟩) hcheck hbind rfl
  refine ⟨htree, hcall, report, v, b, t, hcheck, hbind, p, hmeta, hagree.mpr ?_⟩
  rintro name - q ⟨⟩

/-- The binding tells of a parameter that its content describes that it is not declared, and types
it as a text, while the check finds it declared. -/
theorem contentId_differs : (petDocument [contentId]).IsTree ∧
    petReading [contentId] ∈ calls (petDocument [contentId]) ∧
    ListsInline ((petReading [contentId]).operation.get "parameters") [contentId] ∧
    ∃ report v b t, Returns (Lint.run (petDocument [contentId]) false) [] report v ∧
      Returns (Operation.bind .null withoutHooks (petReading [contentId])) .start b t ∧
      ¬ Warns report (petReading [contentId]) "id" ∧
      Tells Session.start.log t.log (Operation.undeclared "id" "getPet") ∧
      b.metadata.paramsTypes = "id: string" := by
  have htree : (petDocument [contentId]).IsTree := by
    simp only [Value.IsTree, petDocument, petReading, contentId, Value.ofEntries, Value.Throughout,
      Value.EntriesThroughout, Value.ItemsThroughout, List.map_cons, List.map_nil, and_true,
      true_and]
    decide
  have hinline : Operation.IsInline (.ofEntries contentId.entries) contentId :=
    ⟨⟨none, rfl⟩, rfl, ⟨⟨"id", rfl⟩, rfl⟩, ⟨⟨"path", rfl⟩, rfl⟩⟩
  obtain ⟨report, v, hcheck, hwarnings⟩ : ∃ report v,
      (Lint.run (petDocument [contentId]) false).run.run [] = (.ok report, v) ∧
        report.warnings.any (·.message == Lint.undeclaredMessage "id") = false :=
    exists_of_map_eq_some (by decide)
  obtain ⟨b, t, hbind, htypes⟩ : ∃ b t,
      (Operation.bind .null withoutHooks (petReading [contentId])).run.run .start = (.ok b, t) ∧
        b.metadata.paramsTypes = "id: string" :=
    exists_of_map_eq_some (by decide +kernel)
  have htold : Operation.undeclared "id" "getPet" ∈
      ((Operation.bind .null withoutHooks (petReading [contentId])).run.run .start).2.log := by
    decide +kernel
  rw [hbind] at htold
  refine ⟨htree, petDocument_calls _, .inr ⟨_, rfl, .cons hinline .nil⟩, report, v, b, t, hcheck,
    hbind, fun hwarns => ?_, ⟨t.log, rfl, htold⟩, htypes⟩
  have hnone := List.any_eq_false.mp hwarnings _ hwarns
  simp at hnone

end Examples

end ApiBindings.Client
