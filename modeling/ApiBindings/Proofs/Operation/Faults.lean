import ApiBindings.Operation.Bind
import ApiBindings.Proofs.Operation.Parameters
import ApiBindings.Proofs.Schema.Faults

/-!
What can be wrong with an operation whose id is known. Main statement: its types are found, or they
fail for a reason of typing; never for its id.
-/

namespace ApiBindings.Operation

open Value (Lasting)

variable {S : Scalar → Prop} {Q : Entries → Prop} {P : Fault → Prop} (hP : Fault.Typing Q P)
include hP

theorem faultsIn_componentName (id : Scalar) : FaultsIn P (componentName id) :=
  faultsIn_bind (Naming.faultsIn_pascalCaseOf hP _) fun _ _ => faultsIn_ok _

theorem faultsIn_describe (operation : Entries) : FaultsIn P (describe operation) := by
  have hplain (v : Value) : FaultsIn P (describe.plain v) := by
    unfold describe.plain
    split
    · exact faultsIn_ok _
    · exact faultsIn_error (hP.misuse _)
  unfold describe
  dsimp only
  split_ifs
  · exact faultsIn_ok _
  · exact hplain _
  · exact hplain _
  · exact faultsIn_ok _

def MisplacesReference (item : Value) (ref : String) : Prop :=
  (∃ label es, item = .map label es ∧ Entries.get es "$ref" = .str ref) ∧
    Text.dropStart? Schema.parametersRoot ref = none

def Call.MisplacesReference (c : Call) (ref : String) : Prop :=
  ∃ list ∈ [c.routeParameters, c.operation.get "parameters"],
    ∃ items, parameterItems list = .ok items ∧
    ∃ item ∈ items, Operation.MisplacesReference item ref

theorem failsIn_lookUpParameter (components : Value) {item : Value}
    (hitem : ∀ ref, MisplacesReference item ref → P (.because (.unsupportedReference ref))) :
    FailsIn P (lookUpParameter components item) := by
  unfold lookUpParameter
  split
  · split
    · exact failsIn_pure _
    · rename_i ref href
      refine failsIn_lift_bind (Value.faultsIn_expectText hP _) fun text htext => ?_
      rw [Value.expectText_ok htext] at href
      split
      · rename_i hnone
        exact failsIn_throw (hitem text ⟨⟨_, _, rfl, Schema.reference?_eq_some href⟩, hnone⟩)
      · refine failsIn_lift_bind (Value.faultsIn_entriesOrNone hP _) fun es _ => ?_
        refine failsIn_lift_bind (Value.faultsIn_entriesOrNone hP _) fun shared _ => ?_
        split
        · exact failsIn_bind (failsIn_modify _) fun _ _ => failsIn_pure _
        · exact failsIn_pure _
  · exact failsIn_pure _

theorem faultsIn_parameterItems (v : Value) : FaultsIn P (parameterItems v) := by
  unfold parameterItems
  split_ifs
  · exact v.faultsIn_elements hP
  · exact faultsIn_ok _

theorem faultsIn_ofEntries (es : Entries) : FaultsIn P (Parameter.ofEntries es) := by
  refine faultsIn_bind (Value.faultsIn_expectKey hP _) fun name _ => ?_
  exact faultsIn_bind (Value.faultsIn_expectKey hP _) fun position _ => faultsIn_ok _

theorem failsIn_mergeParameters (components : Value) {ofRoute ofOperation : Value}
    (hitems : ∀ list ∈ [ofRoute, ofOperation], ∀ items, parameterItems list = .ok items →
      ∀ item ∈ items, ∀ ref, MisplacesReference item ref →
        P (.because (.unsupportedReference ref))) :
    FailsIn P (mergeParameters components ofRoute ofOperation) := by
  unfold mergeParameters
  refine failsIn_lift_bind (faultsIn_parameterItems hP _) fun xs hxs => ?_
  refine failsIn_lift_bind (faultsIn_parameterItems hP _) fun ys hys => ?_
  have hitem : ∀ item ∈ xs ++ ys, ∀ ref, MisplacesReference item ref →
      P (.because (.unsupportedReference ref)) := by
    intro item hmem
    rcases List.mem_append.mp hmem with hmem | hmem
    · exact hitems ofRoute (by simp) xs hxs item hmem
    · exact hitems ofOperation (by simp) ys hys item hmem
  refine failsIn_foldlM (fun merged item hmem => ?_) []
  refine failsIn_bind (failsIn_lookUpParameter hP components (hitem item hmem)) fun found _ => ?_
  split
  · exact failsIn_pure _
  · refine failsIn_lift_bind (Value.faultsIn_entries hP _) fun es _ => ?_
    exact failsIn_lift_bind (faultsIn_ofEntries hP _) fun p _ => failsIn_pure _

section Parameter

variable (hlasting : Lasting S Q) {p : Parameter} (hp : p.entries.Throughout S Q)
include hlasting hp

theorem faultsIn_parameterType (location : String) : FaultsIn P (parameterType p location) := by
  unfold parameterType
  split
  · rename_i hschema
    exact Schema.typingFaults hP _ (hp.find? hschema) _
  · split_ifs
    · exact Schema.faultsIn_contentType hP hlasting (Value.throughout_map.mpr hp) _
    · exact faultsIn_ok _

theorem faultsIn_queryMember (location : String) : FaultsIn P (queryMember p location) := by
  unfold queryMember
  refine faultsIn_bind (faultsIn_parameterType hP hlasting hp _) fun t _ => ?_
  refine faultsIn_bind (Naming.faultsIn_docCommentOf hP _ _) fun comment _ => ?_
  split
  · exact faultsIn_ok _
  · exact faultsIn_error (hP.misuse _)

end Parameter

section Parameters

variable (hlasting : Lasting S Q) {parameters : List Parameter}
  (hparameters : ∀ p ∈ parameters, p.entries.Throughout S Q)

include hparameters in
theorem failsIn_pathMember (name operationId : String) :
    FailsIn P (pathMember name parameters operationId) := by
  have hundeclared : FailsIn P (do
      Telling.tell (undeclared name operationId)
      return textMember name) :=
    failsIn_bind (failsIn_modify _) fun _ _ => failsIn_pure _
  unfold pathMember
  split
  · rename_i p hfound
    have hp := hparameters p (List.mem_of_find?_eq_some hfound)
    split
    · rename_i hschema
      refine failsIn_lift_bind (Schema.typingFaults hP _ (hp.find? hschema) _) fun t _ => ?_
      refine failsIn_lift_bind (Naming.faultsIn_docCommentOf hP _ _) fun comment _ => ?_
      exact failsIn_pure _
    · exact hundeclared
  · exact hundeclared

include hlasting hparameters

theorem faultsIn_idType (name operationId : String) :
    FaultsIn P (idType name parameters operationId) := by
  unfold idType
  split_ifs
  · exact faultsIn_ok _
  · split
    · exact faultsIn_error (hP.unresolved _ _ _)
    · rename_i p hfound
      have hschema := (hparameters p (List.mem_of_find?_eq_some hfound)).get hlasting "schema"
      split
      · rename_i label es hes
        rw [hes, Value.throughout_map] at hschema
        split
        · rename_i href
          exact Schema.faultsIn_referencedType hP hschema.1 href _
        · split_ifs
          · exact faultsIn_ok _
          · exact Schema.faultsIn_mappingType_of_throughout hP hschema _
      · split_ifs
        · exact faultsIn_error (hP.misuse _)
        · exact faultsIn_ok _

theorem failsIn_typesOf {operation : Entries} (hoperation : operation.Throughout S Q)
    (placeholders : List String) (idParam : Option String) (operationId location : String) :
    FailsIn P (typesOf operation parameters placeholders idParam operationId location) := by
  have hfiltered (position : String) :
      ∀ p ∈ parameters.filter (·.isIn position), p.entries.Throughout S Q :=
    fun p hp => hparameters p (List.mem_of_mem_filter hp)
  unfold typesOf answers
  refine failsIn_lift_bind (Value.faultsIn_entriesOrNone hP _) fun responses hresponses => ?_
  have hbodies (accepts : Scalar → Bool) :
      ∀ e ∈ responses.filter fun e => accepts e.1, e.2.Throughout S Q := by
    rw [Value.entriesOrNone_ok hresponses]
    intro e he
    have hmembers := (hoperation.get hlasting "responses").members hlasting
    exact (hmembers.2 e (List.mem_of_mem_filter he)).2
  have hanswers (accepts : Scalar → Bool) :=
    Schema.faultsIn_contentUnion hP hlasting (hbodies accepts) (location ++ "/responses")
  refine failsIn_lift_bind (hanswers _) fun response _ => ?_
  refine failsIn_lift_bind (hanswers _) fun error _ => ?_
  refine failsIn_lift_bind
    (Schema.faultsIn_contentType hP hlasting (hoperation.get hlasting _) _) fun body _ => ?_
  refine failsIn_bind (failsIn_mapM fun name _ =>
    failsIn_pathMember hP (hfiltered "path") name _) fun _ _ => ?_
  refine failsIn_bind (failsIn_mapM fun p hp => failsIn_lift
    (faultsIn_queryMember hP hlasting (hfiltered "query" p hp) _)) fun _ _ => ?_
  dsimp only
  split
  · refine failsIn_lift_bind (faultsIn_idType hP hlasting hparameters _ _) fun t _ => ?_
    exact failsIn_bind (failsIn_pure _) fun id _ => failsIn_pure _
  · exact failsIn_bind (failsIn_pure _) fun id _ => failsIn_pure _

end Parameters

theorem failsIn_plan (hlasting : Lasting S Q) {c : Call} {components : Value}
    (hcomponents : (components.members.get "parameters").Throughout S Q)
    (hroute : c.routeParameters.Throughout S Q) (hoperation : c.operation.Throughout S Q)
    (hitems : ∀ ref, c.MisplacesReference ref → P (.because (.unsupportedReference ref)))
    (options : Options) (id : Scalar) : FailsIn P (c.plan components options id) := by
  have hlist := hoperation.get hlasting "parameters"
  unfold Call.plan
  refine failsIn_lift_bind (faultsIn_componentName hP _) fun name _ => ?_
  refine failsIn_lift_bind (Value.faultsIn_expectText hP _) fun route _ => ?_
  refine failsIn_bind (failsIn_mergeParameters hP _ fun list hlist items hitems' item hitem
    ref hr =>
    hitems ref ⟨list, hlist, items, hitems', item, hitem, hr⟩) fun parameters hmerged => ?_
  obtain ⟨s, t, hmerged⟩ := hmerged
  have hparameters := mergeParameters_throughout hlasting hcomponents hroute hlist hmerged
  refine failsIn_bind (failsIn_typesOf hP hlasting hparameters hoperation _ _ _ _) fun types _ => ?_
  exact failsIn_lift_bind (faultsIn_describe hP _) fun description _ => failsIn_pure _

end ApiBindings.Operation
