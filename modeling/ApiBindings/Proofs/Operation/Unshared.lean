import ApiBindings.Proofs.Declaration.Alike
import ApiBindings.Proofs.Declaration.Unshared
import ApiBindings.Proofs.Operation.Session

/-!
Operations do not depend on sharing. Main statement: an operation is bound as the one in the tree of
its document is, but for the copy of itself among its metadata.
-/

namespace ApiBindings.Operation

open Declaration (Block)

namespace Parameter

def unshared (p : Parameter) : Parameter := { p with entries := p.entries.unshared }

theorem ofEntries_unshared (es : Entries) : ofEntries es.unshared = unshared <$> ofEntries es := by
  simp [ofEntries, unshared]

end Parameter

theorem lookUpParameter_unshared (components item : Value) :
    lookUpParameter components.unshared item.unshared =
      Option.map Value.unshared <$> lookUpParameter components item := by
  cases item with
  | map label es =>
    rw [Value.unshared_map, lookUpParameter, lookUpParameter, Schema.reference?_unshared]
    cases Schema.reference? es with
    | none => simp
    | some ref =>
      simp only [Option.map_some, Value.expectText_unshared, map_bind,
        Value.entriesOrNone_unshared, liftM_map, bind_map_left, Entries.get_unshared]
      refine bind_congr fun text => ?_
      split
      · rfl
      · simp only [map_bind]
        refine bind_congr fun all => bind_congr fun shared => ?_
        cases shared.get _ with
        | scalar s => cases s <;> simp
        | _ => simp
  | _ => simp [lookUpParameter]

theorem mergeParameter_unshared (p : Parameter) (ps : List Parameter) :
    mergeParameter p.unshared (ps.map .unshared) = (mergeParameter p ps).map .unshared := by
  induction ps with
  | nil => rfl
  | cons q qs ih =>
    rw [List.map_cons, mergeParameter, mergeParameter, ih,
      show q.unshared.isSameAs p.unshared = q.isSameAs p from rfl]
    split_ifs
    · rfl
    · rfl

theorem parameterItems_unshared (v : Value) :
    parameterItems v.unshared = List.map Value.unshared <$> parameterItems v := by
  rw [parameterItems, parameterItems, Value.isFilled_unshared]
  split_ifs
  · exact v.elements_unshared
  · rfl

theorem mergeParameters_unshared (components ofRoute ofOperation : Value) :
    mergeParameters components.unshared ofRoute.unshared ofOperation.unshared =
      List.map .unshared <$> mergeParameters components ofRoute ofOperation := by
  simp only [mergeParameters, parameterItems_unshared, liftM_map, bind_map_left, map_bind,
    ← List.map_append, List.foldlM_map]
  refine bind_congr fun xs => bind_congr fun ys => ?_
  refine foldlM_map_state (k := List.map Parameter.unshared) (fun merged item => ?_) _ []
  rw [lookUpParameter_unshared, bind_map_left, map_bind]
  refine bind_congr fun found => ?_
  cases found with
  | none => simp
  | some found =>
    simp only [Option.map_some, Value.entries_unshared, liftM_map, bind_map_left,
      Parameter.ofEntries_unshared, map_bind, map_pure, mergeParameter_unshared]

section Types

variable (p : Parameter) (ps : List Parameter)

theorem parameterType_unshared (location : String) :
    parameterType p.unshared location = parameterType p location := by
  have hcontent : Schema.contentType (.ofEntries p.entries.unshared) location =
      Schema.contentType (.ofEntries p.entries) location := by
    rw [← Schema.contentType_unshared (.ofEntries p.entries), Value.ofEntries, Value.ofEntries,
      Value.unshared_map]
  rw [parameterType, parameterType, Parameter.unshared]
  simp only [Entries.get?_unshared, Entries.get_unshared, Value.isFilled_unshared, hcontent]
  cases p.entries.get? "schema" with
  | none => rfl
  | some schema => exact Schema.typeOf_unshared schema location

theorem queryMember_unshared (location : String) :
    queryMember p.unshared location = queryMember p location := by
  have hname : ((p.entries.get? "name").map Value.unshared).getD (.str "") =
      ((p.entries.get? "name").getD (.str "")).unshared := by
    cases p.entries.get? "name" with
    | none => simp
    | some name => rfl
  rw [queryMember, queryMember, parameterType_unshared, Parameter.unshared]
  simp only [Entries.get?_unshared, Entries.get_unshared, Value.isFilled_unshared, hname,
    Value.text_unshared, Naming.docCommentOf_unshared]
  refine bind_congr fun t => bind_congr fun comment => ?_
  cases (p.entries.get? "name").getD (.str "") <;> simp

theorem find?_hasName_unshared (name : String) :
    (ps.map Parameter.unshared).find? (·.hasName name) =
      (ps.find? (·.hasName name)).map .unshared := by
  rw [List.find?_map]
  rfl

theorem pathMember_unshared (name operationId : String) :
    pathMember name (ps.map .unshared) operationId = pathMember name ps operationId := by
  rw [pathMember, pathMember, find?_hasName_unshared]
  cases ps.find? (·.hasName name) with
  | none => rfl
  | some p =>
    simp only [Option.map_some, Parameter.unshared, Entries.get?_unshared, Entries.get_unshared,
      Value.isFilled_unshared, Naming.docCommentOf_unshared]
    cases p.entries.get? "schema" with
    | none => rfl
    | some schema => simp only [Option.map_some, Schema.typeOf_unshared]

theorem idType_unshared (name operationId : String) :
    idType name (ps.map .unshared) operationId = idType name ps operationId := by
  rw [idType, idType, find?_hasName_unshared, List.isEmpty_map]
  split_ifs
  · rfl
  · cases ps.find? (·.hasName name) with
    | none => rfl
    | some p =>
      simp only [Option.map_some, Parameter.unshared, Entries.get_unshared]
      have hfilled := (p.entries.get "schema").isFilled_unshared
      cases hschema : p.entries.get "schema" with
      | map label es =>
        rw [Value.unshared_map]
        dsimp only
        rw [Schema.reference?_unshared]
        cases Schema.reference? es with
        | some ref => exact Schema.referencedType_unshared ref none
        | none =>
          simp only [Option.map_none, Schema.mappingType_unshared]
          cases es <;> rfl
      | _ => simp_all

theorem answers_unshared (responses : Entries) (accepts : Scalar → Bool) (location : String) :
    answers responses.unshared accepts location = answers responses accepts location := by
  rw [answers, answers, ← Schema.contentUnion_unshared (responses.filter _), Entries.unshared,
    Entries.unshared, List.filter_map]
  rfl

theorem typesOf_unshared (operation : Entries) (placeholders : List String)
    (idParam : Option String) (operationId location : String) :
    typesOf operation.unshared (ps.map .unshared) placeholders idParam operationId location =
      typesOf operation ps placeholders idParam operationId location := by
  have hfilter (position : String) : (ps.map Parameter.unshared).filter (·.isIn position) =
      (ps.filter (·.isIn position)).map .unshared := by
    rw [List.filter_map]
    rfl
  simp only [typesOf, Entries.get_unshared, Value.entriesOrNone_unshared, liftM_map, bind_map_left,
    answers_unshared, Schema.contentType_unshared, hfilter, pathMember_unshared, List.mapM_map,
    Function.comp_def, queryMember_unshared, idType_unshared]

end Types

theorem describe_unshared (operation : Entries) :
    describe operation.unshared = describe operation := by
  have hplain (v : Value) : describe.plain v.unshared = describe.plain v := by
    cases v <;> simp [describe.plain]
  simp only [describe, Entries.get_unshared, Value.isFilled_unshared, Value.text_unshared, hplain]

namespace Call

variable (c : Call)

def unshared : Call :=
  { c with operation := c.operation.unshared, routeParameters := c.routeParameters.unshared }

theorem id_unshared : c.unshared.id = c.id := by
  simp only [Call.id, unshared, Entries.get_unshared, Value.isFilled_unshared,
    Value.expectKey_unshared]

theorem plan_unshared (components : Value) (options : Options) (id : Scalar) :
    c.unshared.plan components.unshared options id = c.plan components options id := by
  simp only [plan, unshared, Entries.get_unshared, mergeParameters_unshared, bind_map_left,
    typesOf_unshared, describe_unshared]

end Call

def Bound.unshared (b : Bound) : Bound :=
  { b with metadata := { b.metadata with operation := b.metadata.operation.unshared } }

theorem textKeyed_unshared (es : Entries) :
    textKeyed (.ofEntries es.unshared) = Entries.unshared <$> textKeyed (.ofEntries es) := by
  simp only [textKeyed, Value.ofEntries, Entries.unshared, List.all_map, Function.comp_def]
  split_ifs
  · rfl
  · rfl

theorem claimId_unshared (c : Call) : claimId c.unshared = claimId c := by
  rw [claimId, claimId, Call.id_unshared]
  rfl

/-- Without a generator of the user nothing that is written of an operation shows what it shares. -/
theorem bind_unshared (components : Value) {options : Options}
    (ho : options.customGenerator = none) (c : Call) :
    bind components.unshared options c.unshared = Bound.unshared <$> bind components options c := by
  simp only [bind, claimId_unshared, Call.plan_unshared, map_bind]
  refine bind_congr fun id => bind_congr fun plan => bind_congr fun _ => ?_
  rw [Call.unshared, textKeyed_unshared]
  simp only [liftM_map, bind_map_left, bindingsOf_ok ho]
  rfl

end ApiBindings.Operation
