import Mathlib
import ApiBindings.Document.Load
import ApiBindings.Proofs.Client.Options
import ApiBindings.Proofs.Declaration.Interface
import ApiBindings.Proofs.Document.Keys
import ApiBindings.Proofs.Operation.Unshared
import ApiBindings.Proofs.Schema.Resolve
import ApiBindings.Proofs.Schema.Sharing

/-!
Generation on documents whose places share mappings. Main statement: the result is that for the tree
of the document, as long as no discriminator writes to a mapping that stands at several places.
-/

namespace ApiBindings.Client

open Operation (Options Bound)
open Schema (Tagging)
open Declaration (SchemasDeclared declareSchema_object)

variable {document : Value} {options : Options}

def schemasOf (document : Value) : Entries :=
  match (document.members.get "components").toEntries with
  | .ok components => (components.get "schemas").members
  | .error _ => []

/-- Every mapping that a discriminator of the document writes to stands at one place of its
schemas. -/
def WritesApart (document : Value) : Prop :=
  ∀ d ∈ Tagging.ofSchemas (schemasOf document), d.Solitary (schemasOf document)

theorem narrowedComponents_alike (h : WritesApart document) :
    Alike (fun shared tree => tree = shared.unshared) (narrowedComponents document.members)
      (narrowedComponents document.members.unshared) := by
  simp only [narrowedComponents, Entries.get_unshared, Value.isFilled_unshared]
  by_cases hfilled : (document.members.get "components").isFilled = true
  · simp only [if_pos hfilled, Value.toEntries_unshared, liftM_map, bind_map_left,
      Entries.get_unshared, Value.isFilled_unshared]
    refine .after fun _ components _ hcomponents => ?_
    have hschemas : schemasOf document = (components.get "schemas").members := by
      rw [schemasOf, (returns_lift.mp hcomponents).1]
    rw [WritesApart, hschemas] at h
    split_ifs
    · refine .bind (.telling (Schema.followDiscriminators_alike h)) fun narrowed tree htree => ?_
      refine .pure ?_
      rw [Entries.put_unshared, htree, Value.ofEntries, Value.ofEntries, Value.unshared_map]
    · exact .pure rfl
  · simp only [if_neg hfilled]
    refine .after fun _ components _ hcomponents => ?_
    cases (returns_lift.mp hcomponents).1
    exact .pure rfl

theorem bindPath_unshared (components : Value) (ho : options.customGenerator = none)
    (route : Scalar) (path : Value) :
    bindPath components.unshared options route path.unshared =
      List.map Bound.unshared <$> bindPath components options route path := by
  have hcall (e : Scalar × Value) (parameters : Value) :
      ((liftM e.2.unshared.entriesOrNone : Declaring Entries) >>= fun operation =>
        Operation.bind components.unshared options
          ⟨operation, e.1.text, route, parameters.unshared⟩) =
      Bound.unshared <$> ((liftM e.2.entriesOrNone : Declaring Entries) >>= fun operation =>
        Operation.bind components options ⟨operation, e.1.text, route, parameters⟩) := by
    simp only [Value.entriesOrNone_unshared, liftM_map, bind_map_left, map_bind]
    exact bind_congr fun operation => Operation.bind_unshared components ho ⟨operation, _, _, _⟩
  simp only [bindPath, Value.entriesOrNone_unshared, liftM_map, bind_map_left, map_bind,
    Entries.get_unshared]
  refine bind_congr fun es => ?_
  rw [← mapM_map_result, Entries.unshared, List.filter_map, List.mapM_map]
  exact congrArg (List.mapM · _) (funext fun e => hcall e _)

theorem generateIn_alike_unshared (ho : options.customGenerator = none)
    (h : WritesApart document) :
    Alike (fun output tree : Output => output.text = tree.text) (generateIn document options)
      (generateIn document.unshared options) := by
  simp only [generateIn, Value.entries_unshared, liftM_map, bind_map_left]
  refine .after fun _ es _ hes => ?_
  cases Value.entries_ok (returns_lift.mp hes).1
  refine .bind (narrowedComponents_alike h) fun shared tree htree => ?_
  have hshared : Value.ofEntries tree = (Value.ofEntries shared).unshared := by
    rw [htree, Value.ofEntries, Value.ofEntries, Value.unshared_map]
  simp only [hshared, Declaration.componentBlocks_unshared, Entries.get_unshared,
    Value.entriesOrNone_unshared, liftM_map, bind_map_left]
  refine .after fun _ declared _ _ => .after fun _ paths _ _ => ?_
  rw [Entries.unshared, List.mapM_map]
  simp only [Function.comp_def, bindPath_unshared _ ho, mapM_map_result, bind_map_left]
  refine .after fun _ bound _ _ => ?_
  have hblocks : codeBlocks declared (bound.map (List.map Bound.unshared)).flatten =
      codeBlocks declared bound.flatten := by
    rw [← List.map_flatten, codeBlocks, codeBlocks, List.map_map]
    rfl
  have hlength : (bound.map (List.map Bound.unshared)).flatten.length = bound.flatten.length := by
    rw [← List.map_flatten, List.length_map]
  rw [hblocks, hlength]
  refine .after fun _ _ _ _ => .pure ?_
  rw [Output.text, Output.text, Output.blocks, Output.blocks, hblocks]

/-- Without a generator of the user, and if no discriminator writes to a mapping that stands at
several places of the schemas, a document and its tree have the same text generated for them, or the
same fault, and the same is told on the way. -/
theorem generate_unshared (ho : options.customGenerator = none) (h : WritesApart document) :
    (∃ e log, generate document options = (.error e, log) ∧
      generate document.unshared options = (.error e, log)) ∨
    ∃ output tree log, generate document options = (.ok output, log) ∧
      generate document.unshared options = (.ok tree, log) ∧ output.text = tree.text := by
  rw [generate_eq, generate_eq]
  rcases generateIn_alike_unshared ho h .start with ⟨e, t, hx, hy⟩ | ⟨o, o', t, hx, hy, hsame⟩
  · rw [hx, hy]
    exact .inl ⟨e, t.log, rfl, rfl⟩
  · rw [hx, hy]
    exact .inr ⟨o, o', t.log, rfl, rfl, hsame⟩

/-- A collection in which a property is shared, while what the discriminator writes to is not. -/
def namedKinds : Value :=
  .map (some 6) [(.str "components", .map (some 5) [(.str "schemas", .map (some 4) [
    (.str "Pet", .map none [(.str "discriminator", .ofEntries [
      (.str "propertyName", .str "kind"),
      (.str "mapping", .ofEntries [(.str "cat", .str "#/components/schemas/Cat")])])]),
    (.str "Cat", .map (some 3) [(.str "type", .str "object"),
      (.str "properties", namedProperties 2)]),
    (.str "Dog", .map (some 1) [(.str "type", .str "object"),
      (.str "properties", namedProperties 0)])])])]
where
  namedProperties (label : Nat) : Value :=
    .map (some label) [(.str "name", .map (some 7) [(.str "type", .str "string")])]

theorem writesApart_namedKinds : WritesApart namedKinds := by
  have htaggings : Tagging.ofSchemas (schemasOf namedKinds) = [⟨"Cat", .str "kind", .str "cat"⟩] :=
    rfl
  intro d hd
  rw [htaggings, List.mem_singleton] at hd
  subst hd
  rintro key ⟨⟩
  have hall : ∀ label ∈ Schema.writtenLabels (schemasOf namedKinds) "Cat" (.str "kind"),
      (Value.entryLabels (schemasOf namedKinds)).count label ≤ 1 := by decide
  exact hall

theorem generate_unshared_namedKinds :
    Options.default.customGenerator = none ∧ WritesApart namedKinds ∧
    (Value.entryLabels (schemasOf namedKinds)).count 7 = 2 ∧
    ((∃ e log, generate namedKinds .default = (.error e, log) ∧
      generate namedKinds.unshared .default = (.error e, log)) ∨
    ∃ output tree log, generate namedKinds .default = (.ok output, log) ∧
      generate namedKinds.unshared .default = (.ok tree, log) ∧ output.text = tree.text) :=
  ⟨rfl, writesApart_namedKinds, by decide, generate_unshared rfl writesApart_namedKinds⟩

section SharedKinds

/-- A description in which an alias makes one mapping of two schemas. The discriminator selects one
of them. -/
def sharedKindsText : String :=
  "openapi: 3.0.0\n" ++
  "components:\n" ++
  " schemas:\n" ++
  "  Pet:\n" ++
  "   discriminator:\n" ++
  "    propertyName: kind\n" ++
  "    mapping:\n" ++
  "     cat: '#/components/schemas/Cat'\n" ++
  "  Cat: &pet\n" ++
  "   type: object\n" ++
  "  Dog: *pet\n"

def petSchema : Value :=
  .map (some 2) [(.str "discriminator", .map (some 1) [
    (.str "propertyName", .str "kind"),
    (.str "mapping", .map (some 0) [(.str "cat", .str "#/components/schemas/Cat")])])]

def plainObject : Entries := [(.str "type", .str "object")]

def sharedKinds : Value :=
  .map (some 6) [(.str "openapi", .str "3.0.0"),
    (.str "components", .map (some 5) [(.str "schemas", .map (some 4) [
      (.str "Pet", petSchema), (.str "Cat", .map (some 3) plainObject),
      (.str "Dog", .map (some 3) plainObject)])])]

set_option maxRecDepth 100000 in
theorem load_sharedKinds :
    ((Document.load sharedKindsText "yaml" none).run.run []).1 = .ok sharedKinds := by
  have hread : Document.read sharedKindsText "yaml" = .ok sharedKinds := by
    cbv
  rw [Document.load, hread]
  rfl

def taggedObject : Entries :=
  plainObject ++ [(.str "properties", .ofEntries [(.str "kind", .ofEntries [
    (.str "enum", Schema.tagEnumeration (.str "cat"))])])]

theorem mappingType_petSchema (location : String) :
    Schema.mappingType petSchema.members location = .ok .emptyShape := by
  have hobject : Schema.objectType petSchema.members location = .ok .emptyShape := by
    rw [Schema.objectType]
    rfl
  rw [Schema.mappingType]
  change (Schema.objectType petSchema.members location >>= _) = _
  rw [hobject]
  rfl

theorem mappingType_plainObject (location : String) :
    Schema.mappingType plainObject location = .ok .freeFormMap := by
  have hobject : Schema.objectType plainObject location = .ok .freeFormMap := by
    rw [Schema.objectType]
    rfl
  rw [Schema.mappingType]
  change (Schema.objectType plainObject location >>= _) = _
  rw [hobject]
  rfl

def taggedShape : TypeExpr := .shape [(⟨"kind", false, none⟩, .literals ["\"cat\""])] none

theorem mappingType_taggedObject (location : String) :
    Schema.mappingType taggedObject location = .ok taggedShape := by
  have htag (location : String) : Schema.typeOf
      (.ofEntries [(.str "enum", Schema.tagEnumeration (.str "cat"))]) location =
        .ok (.literals ["\"cat\""]) := by
    rw [Value.ofEntries, Schema.typeOf_mapping rfl, Schema.mappingType]
    rfl
  have hobject : Schema.objectType taggedObject location = .ok taggedShape := by
    rw [Schema.objectType]
    change (Schema.propertyTypes taggedObject location >>= _) = _
    rw [Schema.propertyTypes_eq]
    change (Schema.fieldTypes [(.str "kind", _)] _ _ >>= _) = _
    rw [Schema.fieldTypes, Schema.fieldTypes, htag, Schema.indexType_eq]
    rfl
  rw [Schema.mappingType]
  change (Schema.objectType taggedObject location >>= _) = _
  rw [hobject]
  rfl

/-- The write meant for one schema is seen in the other. -/
theorem generate_sees_sharing :
    ((Document.load sharedKindsText "yaml" none).run.run []).1 = .ok sharedKinds ∧
    sharedKinds.unshared.isJson = true ∧ ∃ output tree log log',
      generate sharedKinds .default = (.ok output, log) ∧
      generate sharedKinds.unshared .default = (.ok tree, log') ∧ output.text ≠ tree.text := by
  have hpet := declareSchema_object (some 2) petSchema.members "Pet" rfl rfl
    (mappingType_petSchema (Schema.schemasRoot ++ "Pet"))
  have htagged (name : String) (label : Option Nat) :=
    declareSchema_object label taggedObject name rfl rfl
      (mappingType_taggedObject (Schema.schemasRoot ++ name))
  have hplain := declareSchema_object none plainObject "Dog" rfl rfl
    (mappingType_plainObject (Schema.schemasRoot ++ "Dog"))
  have hshared : SchemasDeclared [(.str "Pet", petSchema), (.str "Cat", .map (some 3) taggedObject),
      (.str "Dog", .map (some 3) taggedObject)] _ :=
    .cons ⟨"Pet", rfl, hpet⟩ (.cons ⟨"Cat", rfl, htagged "Cat" _⟩ (.cons
      ⟨"Dog", rfl, htagged "Dog" _⟩ .nil))
  have htree : SchemasDeclared
      [(.str "Pet", petSchema.unshared), (.str "Cat", .map none taggedObject),
      (.str "Dog", .map none plainObject)] _ :=
    .cons ⟨"Pet", rfl, (Declaration.declareSchema_unshared _ petSchema _).trans hpet⟩ (.cons
      ⟨"Cat", rfl, htagged "Cat" _⟩ (.cons ⟨"Dog", rfl, hplain⟩ .nil))
  obtain ⟨output, log, hrun, houtput⟩ := generate_of_schemas (some 6) sharedKinds.members
    .default rfl (by cbv) rfl hshared
  obtain ⟨tree, log', hrun', htext⟩ := generate_of_schemas none
    sharedKinds.members.unshared .default rfl (by cbv) rfl htree
  refine ⟨load_sharedKinds, by decide, output, tree, log, log', hrun, hrun', ?_⟩
  rw [houtput, htext]
  decide +kernel

end SharedKinds

end ApiBindings.Client
