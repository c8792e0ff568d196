import Mathlib
import ApiBindings.Proofs.Client.Enumeration
import ApiBindings.Proofs.Client.Throughout
import ApiBindings.Proofs.Declaration.Faults
import ApiBindings.Proofs.Lint.Silent
import ApiBindings.Proofs.Operation.Session

/-!
What can still go wrong with a document in which the lint finds nothing. Main statement: an id is
missing only where an operation is no mapping, items are missing only where they are null, and a
reference is refused only if it leads into the document, but not to a component.
-/

namespace ApiBindings

namespace Operation

open Value (Lasting)

variable {S : Scalar → Prop} {Q : Entries → Prop} {P : Fault → Prop}

theorem failsIn_bindCall (hP : Fault.Typing Q P)
    (hduplicate : ∀ id location, P (.failure (.duplicateOperationId id) location))
    (hlasting : Lasting S Q) {c : Call} {components : Value} {options : Options}
    (hmissing : (c.operation.get "operationId").isFilled = false →
      P (.because (.missingOperationId c.verb c.route.text)))
    (hcomponents : (components.members.get "parameters").Throughout S Q)
    (hroute : c.routeParameters.Throughout S Q) (hoperation : c.operation.Throughout S Q)
    (hitems : ∀ ref, c.MisplacesReference ref → P (.because (.unsupportedReference ref)))
    (hgenerator : options.customGenerator = none) : FailsIn P (bind components options c) := by
  have hid : FaultsIn P c.id := by
    unfold Call.id
    dsimp only
    split_ifs with hfilled
    · exact Value.faultsIn_expectKey hP _
    · exact faultsIn_error (hmissing (by simpa using hfilled))
  have hclaim : FailsIn P (claimId c) := by
    intro s e t h
    obtain ⟨-, h | ⟨id, -, -, rfl⟩⟩ := claimId_fails h
    · exact hid e h
    · exact hduplicate _ _
  have hregistered (names : List String) (origin : String) :
      FailsIn P (names.forM fun name => Declaring.register name origin) :=
    fun _ _ _ h => absurd h not_fails_registrations
  have htextKeyed : FaultsIn P (textKeyed (.ofEntries c.operation)) := by
    unfold textKeyed Value.ofEntries
    dsimp only
    split_ifs
    · exact faultsIn_ok _
    · exact faultsIn_error (hP.misuse _)
  unfold bind
  refine failsIn_bind hclaim fun id _ => ?_
  refine failsIn_bind (failsIn_telling (failsIn_plan hP hlasting hcomponents hroute hoperation
    hitems options id)) fun plan _ => ?_
  refine failsIn_bind (hregistered _ _) fun _ _ => ?_
  refine failsIn_lift_bind htextKeyed fun operation _ => ?_
  dsimp only
  rw [bindingsOf_ok hgenerator]
  refine failsIn_lift_bind (faultsIn_ok _) fun hooks _ => ?_
  exact failsIn_bind (failsIn_modify _) fun _ _ => failsIn_pure _

end Operation

namespace Client

open Operation (Call Options)

variable {document : Value} {options : Options}

section Stages

variable {Q : Entries → Prop} {P : Fault → Prop} (hP : Fault.Typing Q P)
include hP

theorem failsIn_narrowedComponents {es : Entries}
    (hdiscriminator : ∀ ref location, P (.failure (.unsupportedDiscriminator ref) location)) :
    FailsIn P (narrowedComponents es) := by
  unfold narrowedComponents
  refine failsIn_lift_bind ?_ fun components _ => ?_
  · split_ifs
    · exact Value.faultsIn_toEntries hP _
    · exact faultsIn_ok _
  · dsimp only
    split_ifs
    · refine failsIn_bind (failsIn_telling
        (Schema.failsIn_followDiscriminators hP hdiscriminator _)) fun narrowed _ => ?_
      exact failsIn_pure _
    · exact failsIn_pure _

theorem failsIn_bindPath {components path : Value} {route : Scalar}
    (hcalls : ∀ c ∈ pathCalls route path, FailsIn P (Operation.bind components options c)) :
    FailsIn P (bindPath components options route path) := by
  unfold bindPath
  refine failsIn_lift_bind (Value.faultsIn_entriesOrNone hP _) fun es hes => ?_
  cases Value.entriesOrNone_ok hes
  refine failsIn_mapM fun e he => ?_
  refine failsIn_lift_bind (Value.faultsIn_entriesOrNone hP _) fun operation hoperation => ?_
  cases Value.entriesOrNone_ok hoperation
  exact hcalls _ (List.mem_map.mpr ⟨e, he, rfl⟩)

end Stages

def HasNoMapping (document : Value) (verb route : String) : Prop :=
  ∃ e ∈ paths document, e.1.text = route ∧
    ∃ operation, (.str verb, operation) ∈ e.2.members ∧ operation.isMap = false

/-- What the faults that the lint looks for say of a document in which it finds nothing. -/
def Explained (document : Value) : Fault → Prop
  | .failure (.missingOperationId verb route) _ => HasNoMapping document verb route
  | .failure .missingItems _ => Lint.HasNullItems document
  | .failure (.unsupportedReference ref) _ => Lint.LeadsInto document ref ∧
    (Schema.target? ref Schema.collections = none ∨ ∃ c ∈ calls document, c.MisplacesReference ref)
  | _ => True

theorem typing_explained (document : Value) :
    Fault.Typing (Lint.Seen document) (Explained document) where
  misuse _ := trivial
  unnameable _ _ := trivial
  unresolved _ _ _ := trivial
  items _ _ hes htype hitems := hes.items htype hitems
  reference _ ref _ hes href hnone := ⟨hes.reference ref href, .inl hnone⟩

theorem mem_paths_of_mem_calls {c : Call} (hc : c ∈ calls document) :
    ∃ e ∈ paths document, e.1 = c.route ∧ ∃ operation, (.str c.verb, operation) ∈ e.2.members ∧
      c.verb ∈ Operation.verbs ∧ c.operation = operation.members := by
  obtain ⟨path, operation, hpath, hoperation, hverb, hc, -⟩ := mem_calls_iff.mp hc
  exact ⟨(c.route, path), hpath, rfl, operation, hoperation, hverb, hc⟩

theorem explained_missing (hpasses : Lint.Passes document) {c : Call} (hc : c ∈ calls document)
    (hid : (c.operation.get "operationId").isFilled = false) :
    Explained document (.because (.missingOperationId c.verb c.route.text)) := by
  obtain ⟨e, he, hroute, operation, hoperation, hverb, hmembers⟩ := mem_paths_of_mem_calls hc
  refine ⟨e, he, congrArg Scalar.text hroute, operation, hoperation, ?_⟩
  have hmethod : c.verb ∈ Lint.httpMethods := by
    revert hverb
    generalize c.verb = verb
    simp only [Operation.verbs, Lint.httpMethods, List.mem_cons]
    tauto
  cases operation with
  | map label es =>
    rw [hmembers] at hid
    have hfilled := hpasses.operations e he c.verb hmethod label es hoperation
    cases hfilled.symm.trans hid
  | _ => rfl

theorem failsIn_generateIn (hjson : document.isJson = true) (hpasses : Lint.Passes document)
    (hgenerator : options.customGenerator = none) :
    FailsIn (Explained document) (generateIn document options) := by
  have hP := typing_explained document
  have hlasting := Lint.lasting_seen document
  have hdocument : document.Throughout (fun _ => True) (Lint.Seen document) :=
    Lint.throughout_of_mappings hjson hpasses.nodes
  have hcall {c : Call} (hc : c ∈ calls document) {components : Value}
      (hcomponents : (components.members.get "parameters").Throughout (fun _ => True)
        (Lint.Seen document)) :
      FailsIn (Explained document) (Operation.bind components options c) := by
    obtain ⟨-, hoperation, hroute⟩ := calls_throughout hlasting hdocument hc
    refine Operation.failsIn_bindCall hP (fun _ _ => trivial) hlasting
      (explained_missing hpasses hc) hcomponents hroute hoperation (fun ref hr => ?_) hgenerator
    refine ⟨?_, .inr ⟨c, hc, hr⟩⟩
    -- the walk has come by the item, so its reference was looked at
    obtain ⟨list, hlist, items, hitems, item, hitem, ⟨label, es, rfl, href⟩, -⟩ := hr
    have hall : list.Throughout (fun _ => True) (Lint.Seen document) := by
      rcases List.mem_pair.mp hlist with rfl | rfl
      · exact hroute
      · exact hoperation.get hlasting _
    have hseen := Operation.parameterItems_throughout hlasting hall hitems _ hitem
    exact (Value.throughout_map.mp hseen).1.reference ref href
  unfold generateIn
  refine failsIn_lift_bind (Value.faultsIn_entries hP _) fun es hes => ?_
  cases Value.entries_ok hes
  refine failsIn_bind (failsIn_narrowedComponents hP fun _ _ => trivial) fun shared hshared => ?_
  obtain ⟨s, t, hshared⟩ := hshared
  have hcomponents := narrowedComponents_throughout hlasting hdocument trivial trivial hshared
  refine failsIn_bind (Declaration.failsIn_componentBlocks hP hlasting hcomponents)
    fun declared _ => ?_
  refine failsIn_lift_bind (Value.faultsIn_entriesOrNone hP _) fun routes hroutes => ?_
  cases Value.entriesOrNone_ok hroutes
  refine failsIn_bind (failsIn_mapM fun e he => ?_) fun bound _ => ?_
  · exact failsIn_bindPath hP fun c hc =>
      hcall (List.mem_flatMap.mpr ⟨e, he, hc⟩) (hcomponents "parameters")
  · exact failsIn_bind (failsIn_modify _) fun _ _ => failsIn_pure _

/-- A document in which the lint finds nothing can still be refused for a missing id, for missing
items or for a reference, but for no other reasons than these. -/
theorem generate_explained {report : Lint.Report} {e : Fault} {log : Log}
    (hjson : document.isJson = true) (hcheck : Lint.check document = .ok report)
    (hsilent : report.IsSilent) (hgenerator : options.customGenerator = none)
    (h : generate document options = (.error e, log)) : Explained document e := by
  rw [generate, Prod.mk.injEq] at h
  exact failsIn_generateIn hjson (Lint.passes_of_isSilent hcheck hsilent) hgenerator _ _ _
    (Prod.ext h.1 rfl)

section Examples

def lintedDocument (components operation : Value) : Value :=
  .ofEntries [
    (.str "info", .ofEntries [(.str "title", .str "Pets"), (.str "version", .str "1")]),
    (.str "components", components),
    (.str "paths", .ofEntries [(.str "/pets", .ofEntries [(.str "get", operation)])])]

def lintedOperation (parameters : Value) : Value :=
  .ofEntries [
    (.str "operationId", .str "listPets"),
    (.str "parameters", parameters),
    (.str "responses", .ofEntries [(.str "200", .ofEntries [(.str "description", .str "Pets")])])]

def sharedSchema (name : String) (schema : Value) : Value :=
  .ofEntries [(.str "schemas", .ofEntries [(.str name, schema)])]

def reference (ref : String) : Value := .ofEntries [(.str "$ref", .str ref)]

def nullOperation : Value := lintedDocument (.ofEntries []) .null

def nullItems : Value :=
  lintedDocument
    (sharedSchema "Pets" (.ofEntries [(.str "type", .str "array"), (.str "items", .null)]))
    (lintedOperation (.list []))

def infoSchema : Value :=
  lintedDocument (sharedSchema "Info" (reference "#/info")) (lintedOperation (.list []))

def schemaParameter : Value :=
  lintedDocument (sharedSchema "Limit" (.ofEntries [(.str "type", .str "integer")]))
    (lintedOperation (.list [reference "#/components/schemas/Limit"]))

theorem exists_silent_of_check {document : Value}
    (h : (Lint.check document).toOption.map (fun r => (r.errors, r.warnings)) = some ([], [])) :
    ∃ report, Lint.check document = .ok report ∧ report.IsSilent := by
  obtain ⟨report, hreport, hsilent⟩ := Option.map_eq_some_iff.mp h
  exact ⟨report, toOption_eq_some.mp hreport, Prod.mk.inj hsilent⟩

theorem exists_log_of_fault? {document : Value} {e : Fault}
    (h : fault? (generate document .default).1 = some e) :
    ∃ log, generate document .default = (.error e, log) :=
  ⟨_, Prod.ext (eq_error_of_fault? h) rfl⟩

theorem generate_infoSchema : ∃ log, generate infoSchema .default =
    (.error (.located (.unsupportedReference "#/info") "#/components/schemas/Info"), log) :=
  exists_log_of_fault? (by cbv)

theorem generate_explained_infoSchema : infoSchema.isJson = true ∧
    (∃ report, Lint.check infoSchema = .ok report ∧ report.IsSilent) ∧
    Options.default.customGenerator = none ∧
    (∃ e log, generate infoSchema .default = (.error e, log)) ∧
    Lint.LeadsInto infoSchema "#/info" := by
  have hjson : infoSchema.isJson = true := by decide +kernel
  obtain ⟨report, hcheck, hsilent⟩ : ∃ report, Lint.check infoSchema = .ok report ∧
      report.IsSilent :=
    exists_silent_of_check (by decide +kernel)
  obtain ⟨log, hrun⟩ := generate_infoSchema
  obtain ⟨hleads, -⟩ := generate_explained hjson hcheck hsilent rfl hrun
  exact ⟨hjson, ⟨report, hcheck, hsilent⟩, rfl, ⟨_, log, hrun⟩, hleads⟩

/-- In each of these documents the lint finds nothing, and each is refused for what the lint looks
for. -/
theorem generate_refuses_linted :
    (∀ document ∈ [nullOperation, nullItems, infoSchema, schemaParameter],
      document.isJson = true ∧ ∃ report, Lint.check document = .ok report ∧ report.IsSilent) ∧
    (∃ log, generate nullOperation .default =
      (.error (.because (.missingOperationId "get" "/pets")), log)) ∧
    (∃ log, generate nullItems .default =
      (.error (.located .missingItems "#/components/schemas/Pets"), log)) ∧
    (∃ log, generate infoSchema .default =
      (.error (.located (.unsupportedReference "#/info") "#/components/schemas/Info"), log)) ∧
    ∃ log, generate schemaParameter .default =
      (.error (.because (.unsupportedReference "#/components/schemas/Limit")), log) := by
  refine ⟨fun document hdocument => ?_, exists_log_of_fault? (by decide),
    exists_log_of_fault? (by cbv), generate_infoSchema, exists_log_of_fault? (by cbv)⟩
  simp only [List.mem_cons, List.not_mem_nil, or_false] at hdocument
  rcases hdocument with rfl | rfl | rfl | rfl
  all_goals exact ⟨by decide +kernel, exists_silent_of_check (by decide +kernel)⟩

end Examples

end Client

end ApiBindings
