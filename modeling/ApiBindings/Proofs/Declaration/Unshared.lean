import ApiBindings.Declaration.Component
import ApiBindings.Proofs.Schema.Unshared

/-!
Declarations do not depend on sharing. Main statement: the components of a document are declared as
those of its tree are.
-/

namespace ApiBindings.Declaration

open Schema (reference?_unshared)

theorem isObjectSchema_unshared (schema : Value) :
    isObjectSchema schema.unshared = isObjectSchema schema := by
  cases schema with
  | map label es =>
    rw [Value.unshared_map, isObjectSchema, isObjectSchema]
    simp only [reference?_unshared, Option.isNone_map, Entries.get_unshared,
      Value.isFilled_unshared, Schema.isComposition_unshared]
    cases Entries.get es "type" <;>
      simp only [Value.unshared_scalar, Value.unshared_list, Value.unshared_map,
        Value.unshared_set, Value.unshared_pair]
  | _ => simp [isObjectSchema]

theorem declareSchema_unshared (name : String) (schema : Value) (location : String) :
    declareSchema name schema.unshared location = declareSchema name schema location := by
  have hobject := isObjectSchema_unshared schema
  have htype := Schema.typeOf_unshared schema location
  have hdescription := Schema.inlineDescription_unshared schema
  cases schema with
  | map label es =>
    simp only [Value.unshared_map] at hobject htype hdescription ⊢
    rw [declareSchema, declareSchema]
    simp only [hobject, htype, hdescription, Schema.mappingType_unshared, Entries.get_unshared,
      Naming.docCommentOf_unshared]
  | scalar s => rw [Value.unshared_scalar]
  | set ms => rw [Value.unshared_set]
  | list items =>
    rw [Value.unshared_list] at htype ⊢
    rw [declareSchema, declareSchema, htype] <;> simp
  | pair a b =>
    rw [Value.unshared_pair] at htype ⊢
    rw [declareSchema, declareSchema, htype] <;> simp

theorem declaration_unshared (name : String) (t : TypeExpr) (description : Value) :
    declaration name t description.unshared = declaration name t description := by
  simp [declaration]

theorem declareSchemas_unshared (schemas : Value) :
    declareSchemas schemas.unshared = declareSchemas schemas := by
  simp only [declareSchemas, Value.isFilled_unshared, Value.entries_unshared, liftM_map,
    bind_map_left, Entries.unshared, List.mapM_map, Function.comp_def, declareSchema_unshared]

theorem declareBodies_unshared (part : BodySection) (bodies : Value) :
    declareBodies part bodies.unshared = declareBodies part bodies := by
  simp only [declareBodies, Value.isFilled_unshared, Value.entries_unshared, liftM_map,
    bind_map_left, Entries.unshared, List.mapM_map, Function.comp_def,
    Schema.contentType_unshared, Schema.inlineDescription_unshared, declaration_unshared]

theorem componentBlocks_unshared (components : Value) :
    componentBlocks components.unshared = componentBlocks components := by
  simp only [componentBlocks, Value.entriesOrNone_unshared, liftM_map, bind_map_left,
    Entries.get_unshared, declareSchemas_unshared, declareBodies_unshared]

end ApiBindings.Declaration
