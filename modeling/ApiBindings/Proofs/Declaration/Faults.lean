import ApiBindings.Proofs.Declaration.Run
import ApiBindings.Proofs.Schema.Faults
import ApiBindings.Proofs.Schema.Tagging
import ApiBindings.Declaration.Component

/-!
What can be wrong with the components of a document. Main statement: they are declared, or one of
their types is not found.
-/

namespace ApiBindings

variable {S : Scalar → Prop} {Q : Entries → Prop} {P : Fault → Prop}

theorem failsIn_telling {α : Type} {x : Telling α} (hx : FailsIn P x) :
    FailsIn P (Declaring.telling x) := by
  intro s e t h
  obtain ⟨log, h, -⟩ := fails_telling.mp h
  exact hx s.log e log h

namespace Declaration

open Value (Lasting)

variable (hP : Fault.Typing Q P)
include hP

theorem faultsIn_declaration (name : String) (t : TypeExpr) (description : Value) :
    FaultsIn P (declaration name t description) := by
  unfold declaration
  split_ifs
  · exact faultsIn_ok _
  · exact faultsIn_bind (Naming.faultsIn_docCommentOf hP _ _) fun _ _ => faultsIn_ok _

theorem faultsIn_declareSchema {schema : Value} (hschema : schema.Throughout S Q)
    (name location : String) : FaultsIn P (declareSchema name schema location) := by
  have htype := Schema.typingFaults hP schema hschema location
  unfold declareSchema
  split
  · split_ifs
    · refine faultsIn_bind (Schema.faultsIn_mappingType_of_throughout hP
        (Value.throughout_map.mp hschema) _) fun t _ => ?_
      exact faultsIn_bind (Naming.faultsIn_docCommentOf hP _ _) fun _ _ => faultsIn_ok _
    · refine faultsIn_bind htype fun t _ => ?_
      exact faultsIn_bind (Naming.faultsIn_docCommentOf hP _ _) fun _ _ => faultsIn_ok _
  · exact faultsIn_bind htype fun _ _ => faultsIn_ok _

variable (hlasting : Lasting S Q) {v : Value} (hv : v.Throughout S Q)
include hlasting hv

theorem failsIn_declareSchemas : FailsIn P (declareSchemas v) := by
  unfold declareSchemas
  split_ifs
  · refine failsIn_lift_bind (Value.faultsIn_entries hP _) fun es hes => ?_
    refine failsIn_bind (failsIn_mapM fun e he => ?_) fun declarations _ => failsIn_pure _
    rw [Value.entries_ok hes] at he
    have hschema := ((hv.members hlasting).2 e he).2
    refine failsIn_lift_bind (Naming.faultsIn_pascalCaseOf hP _) fun name _ => ?_
    refine failsIn_bind (failsIn_modify _) fun _ _ => ?_
    refine failsIn_lift_bind (faultsIn_declareSchema hP hschema _ _) fun declaration _ => ?_
    exact failsIn_bind (failsIn_modify _) fun _ _ => failsIn_pure _
  · exact failsIn_pure _

theorem failsIn_declareBodies (part : BodySection) : FailsIn P (declareBodies part v) := by
  unfold declareBodies
  split_ifs
  · refine failsIn_lift_bind (Value.faultsIn_entries hP _) fun es hes => ?_
    refine failsIn_bind (failsIn_mapM fun e he => ?_) fun declarations _ => failsIn_pure _
    rw [Value.entries_ok hes] at he
    have hbody := ((hv.members hlasting).2 e he).2
    refine failsIn_lift_bind (Naming.faultsIn_pascalCaseOf hP _) fun name _ => ?_
    refine failsIn_bind (failsIn_modify _) fun _ _ => ?_
    refine failsIn_lift_bind (Schema.faultsIn_contentType hP hlasting hbody _) fun t _ => ?_
    exact failsIn_lift (faultsIn_declaration hP _ _ _)
  · exact failsIn_pure _

omit hv in
theorem failsIn_componentBlocks {components : Value}
    (hcomponents : ∀ key, (components.members.get key).Throughout S Q) :
    FailsIn P (componentBlocks components) := by
  unfold componentBlocks
  refine failsIn_lift_bind (Value.faultsIn_entriesOrNone hP _) fun es hes => ?_
  rw [Value.entriesOrNone_ok hes]
  refine failsIn_bind (failsIn_declareSchemas hP hlasting (hcomponents _)) fun schemas _ => ?_
  refine failsIn_bind (failsIn_declareBodies hP hlasting (hcomponents _) _) fun bodies _ => ?_
  refine failsIn_bind (failsIn_declareBodies hP hlasting (hcomponents _) _) fun answers _ => ?_
  exact failsIn_pure _

end Declaration

namespace Schema

variable (hP : Fault.Typing Q P)
  (hdiscriminator : ∀ ref location, P (.failure (.unsupportedDiscriminator ref) location))
include hP

theorem faultsIn_narrowTarget (schemas : Entries) (target : Scalar) (property : Value)
    (value : Scalar) : FaultsIn P (narrowTarget schemas target property value) := by
  rw [narrowTarget_eq]
  refine faultsIn_bind (Value.faultsIn_entries hP _) fun properties _ => ?_
  exact faultsIn_bind (Value.faultsIn_expectKey hP _) fun key _ => faultsIn_ok _

include hdiscriminator

theorem failsIn_followMapping (d : Discriminator) (schemas : Entries) (value : Scalar)
    (ref : Value) : FailsIn P (followMapping d schemas value ref) := by
  unfold followMapping
  refine failsIn_lift_bind (Value.faultsIn_expectText hP _) fun text _ => ?_
  split
  · exact failsIn_throw (hdiscriminator _ _)
  · dsimp only
    split
    · refine failsIn_lift_bind (faultsIn_narrowTarget hP _ _ _ _) fun narrowed _ => ?_
      exact failsIn_bind (failsIn_modify _) fun _ _ => failsIn_pure _
    · exact failsIn_bind (failsIn_modify _) fun _ _ => failsIn_pure _

theorem failsIn_followSchema (schemas : Entries) (name : Scalar) (schema : Value) :
    FailsIn P (followSchema schemas name schema) := by
  unfold followSchema
  split
  · split_ifs
    · exact failsIn_pure _
    · refine failsIn_lift_bind (Value.faultsIn_entriesOrNone hP _) fun discriminator _ => ?_
      dsimp only
      split_ifs
      · refine failsIn_lift_bind (Value.faultsIn_entries hP _) fun mapping _ => ?_
        exact failsIn_foldlM (fun _ _ _ => failsIn_followMapping hP hdiscriminator _ _ _ _) _
      · exact failsIn_pure _
  · exact failsIn_pure _

theorem failsIn_followDiscriminators (schemas : Value) :
    FailsIn P (followDiscriminators schemas) := by
  unfold followDiscriminators
  refine failsIn_lift_bind (Value.faultsIn_entriesOrNone hP _) fun source _ => ?_
  exact failsIn_foldlM (fun _ _ _ => failsIn_followSchema hP hdiscriminator _ _ _) _

end Schema

end ApiBindings
