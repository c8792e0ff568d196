import ApiBindings.Proofs.Declaration.Declared

/-!
Interfaces. Main statement: a schema that is declared as an interface has the type of an object, so
that after the name of every interface stands one body in braces.
-/

namespace ApiBindings

namespace TypeExpr

def isObject : TypeExpr → Bool
  | .shape .. => true
  | .freeFormMap => true
  | _ => false

theorem isObject_of_isShape {t : TypeExpr} (h : t.isShape = true) : t.isObject = true := by
  cases t with
  | shape fields index => rfl
  | _ => cases h

theorem isShape_of_isEmptyShape {t : TypeExpr} (h : t.isEmptyShape = true) : t.isShape = true := by
  cases t with
  | shape fields index => rfl
  | _ => cases h

theorem render_of_isObject {t : TypeExpr} (h : t.isObject = true) :
    ∃ members, t.render = "\x7b" ++ members ++ "\x7d" := by
  have hlines (lines : String) : "\x7b\n" ++ lines ++ "\n\x7d" =
      "\x7b" ++ ("\n" ++ lines ++ "\n") ++ "\x7d" := by
    simp only [← String.toList_inj, String.toList_append]
    simp
  cases t with
  | freeFormMap => exact ⟨"[key: string]: any", by decide⟩
  | shape fields index =>
    cases fields with
    | cons f fields => exact ⟨_, by rw [render, hlines]; simp⟩
    | nil =>
      cases index with
      | none => exact ⟨"", by decide⟩
      | some t => exact ⟨_, by rw [render, hlines]; simp⟩
  | _ => cases h

end TypeExpr

namespace Schema

variable {es : Entries} {location : String} {t : TypeExpr}

theorem objectType_isObject (href : reference? es = none) (hplain : isComposition es = false)
    (htype : es.get "type" = .null ∨ es.get "type" = .str "object")
    (h : objectType es location = .ok t) : t.isObject = true := by
  simp only [isComposition, Bool.or_eq_false_iff] at hplain
  rw [objectType, href] at h
  simp only [hplain, Bool.false_eq_true, if_false] at h
  split_ifs at h with hempty hfree hshape hobject
  · cases h
    rfl
  · cases h
    rfl
  · obtain ⟨fields, -, h⟩ := bind_eq_ok.mp h
    obtain ⟨index, -, h⟩ := bind_eq_ok.mp h
    cases pure_eq_ok.mp h
    rfl
  · cases h
    rfl
  · -- what has neither properties nor a condition on further ones is empty if its kind is not given
    rcases htype with htype | htype
    · simp_all
    · simp_all [Value.equals, Value.sameAs, Scalar.equals]

end Schema

namespace Declaration

/-- After the name of the statement, which is an interface, stands the text of one object. -/
def Statement.HasBody (d : Statement) : Prop :=
  ∃ (t : TypeExpr) (members : String), t.isObject = true ∧ t.render = "\x7b" ++ members ++ "\x7d" ∧
    d.text = d.before ++ "export interface " ++ d.name ++ " \x7b" ++ members ++ "\x7d"

theorem interface_hasBody (comment name : String) {t : TypeExpr} (h : t.isObject = true) :
    (interface comment name t).HasBody := by
  obtain ⟨members, hmembers⟩ := TypeExpr.render_of_isObject h
  have hkeyword : "export " ++ Kind.interface.keyword ++ " " = "export interface " := by decide
  have hopen : " " ++ "\x7b" = " \x7b" := by decide
  refine ⟨t, members, h, hmembers, ?_⟩
  rw [interface, Statement.text, hmembers, ← hkeyword, ← hopen]
  simp only [String.append_assoc]

theorem declareAs_hasBody {comment name : String} {t : TypeExpr}
    (h : (declareAs comment name t).kind = .interface) : (declareAs comment name t).HasBody := by
  unfold declareAs at h ⊢
  split_ifs at h ⊢ with hempty hshape
  · exact interface_hasBody _ name
      (TypeExpr.isObject_of_isShape (TypeExpr.isShape_of_isEmptyShape hempty))
  · exact interface_hasBody comment name (TypeExpr.isObject_of_isShape hshape)
  · cases h

theorem declaration_hasBody {name : String} {t : TypeExpr} {description : Value} {d : Statement}
    (h : declaration name t description = .ok d) (hkind : d.kind = .interface) : d.HasBody := by
  obtain ⟨comment, -, rfl⟩ := declaration_ok h
  exact declareAs_hasBody hkind

theorem mappingType_isObject {label : Option Nat} {es : Entries} {location : String} {t : TypeExpr}
    (hobject : isObjectSchema (.map label es) = true)
    (h : Schema.mappingType es location = .ok t) : t.isObject = true := by
  simp only [isObjectSchema, Bool.and_eq_true, Bool.not_eq_true', Option.isNone_iff_eq_none]
    at hobject
  obtain ⟨⟨⟨⟨href, htype⟩, henum⟩, hplain⟩, hnullable⟩ := hobject
  have htype : es.get "type" = .null ∨ es.get "type" = .str "object" := by
    split at htype
    · exact .inl ‹_›
    · rename_i kind hkind
      exact .inr (by rw [hkind, beq_iff_eq.mp htype])
    · cases htype
  have hkinds : Schema.Kind.of (es.get "type") = .ok .absent ∨
      Schema.Kind.of (es.get "type") = .ok .object := by
    rcases htype with htype | htype
    · exact .inl (by rw [htype]; rfl)
    · exact .inr (by rw [htype]; rfl)
  obtain ⟨kind, hkind, htyped⟩ := Schema.mappingType_ok h
  have hobjectType : Schema.objectType es location = .ok t := by
    -- of the ways to be given a type only those of an object are left
    simp only [hnullable, Bool.false_eq_true, if_false] at htyped
    rcases hkinds with habsent | hobject
    · cases hkind.symm.trans habsent
      obtain ⟨hnull, -⟩ | ⟨u, hu, rfl⟩ := htyped
      · cases hnull
      · cases hu with
        | enumeration hfilled => exact absurd (hfilled.symm.trans henum) (by decide)
        | untyped _ hu => exact hu
        | object _ hu => exact hu
    · cases hkind.symm.trans hobject
      obtain ⟨hnull, -⟩ | ⟨u, hu, rfl⟩ := htyped
      · cases hnull
      · cases hu with
        | object _ hu => exact hu
  exact Schema.objectType_isObject href hplain htype hobjectType

theorem declareSchema_hasBody {name location : String} {schema : Value} {d : Statement}
    (h : declareSchema name schema location = .ok d) (hkind : d.kind = .interface) : d.HasBody := by
  rcases declareSchema_ok h with
    ⟨label, es, t, comment, rfl, hobject, ht, -, rfl⟩ | ⟨t, comment, -, -, rfl⟩
  · exact interface_hasBody _ name (mappingType_isObject hobject ht)
  · cases hkind

theorem declareSchema_object (label : Option Nat) (es : Entries) (name : String)
    {location : String} {t : TypeExpr} (hobject : isObjectSchema (.map label es) = true)
    (hdescription : es.get "description" = .null)
    (htype : Schema.mappingType es location = .ok t) :
    declareSchema name (.map label es) location = .ok (interface
      (if t.isEmptyShape then emptyInterfaceMarker else "") name t) := by
  rw [declareSchema, if_pos hobject, htype, hdescription]
  simp [Naming.docCommentOf, Value.isFilled, Scalar.isFilled]
  rfl

/-- The test of the schemas that become interfaces agrees with their types, and every interface that
is declared for a collection, or for a type of its own, has one body in braces. -/
theorem interfaces_haveBodies :
    (∀ label es location t, isObjectSchema (.map label es) = true →
      Schema.mappingType es location = .ok t → t.isObject = true) ∧
    (∀ schemas s b t, Returns (declareSchemas schemas) s b t →
      ∀ d ∈ b.statements, d.kind = .interface → d.HasBody) ∧
    (∀ part bodies s b t, Returns (declareBodies part bodies) s b t →
      ∀ d ∈ b.statements, d.kind = .interface → d.HasBody) ∧
    ∀ name t description d, declaration name t description = .ok d → d.kind = .interface →
      d.HasBody := by
  refine ⟨fun _ _ _ _ => mappingType_isObject, ?_, ?_, fun _ _ _ _ => declaration_hasBody⟩
  · intro schemas s b t h d hd hkind
    obtain ⟨e, -, name, -, hdecl⟩ := exists_left_of_forall₂ (declareSchemas_steps h) hd
    exact declareSchema_hasBody hdecl hkind
  · intro part bodies s b t h d hd hkind
    obtain ⟨e, -, name, type, -, -, hdecl⟩ := exists_left_of_forall₂ (declareBodies_steps h) hd
    exact declaration_hasBody hdecl hkind

section Examples

def tagsSchema : Entries :=
  [(.str "type", .str "object"), (.str "enum", .list []), (.str "nullable", .bool false),
    (.str "additionalProperties", .bool false)]

def tagsSchemas : Entries := [(.str "tags", .ofEntries tagsSchema)]

def petBodies : Value :=
  .ofEntries [(.str "pet", .ofEntries [(.str "content", .ofEntries [
    (.str "application/json", .ofEntries [(.str "schema", .ofEntries [])])])])]

theorem mappingType_tagsSchema (location : String) :
    Schema.mappingType tagsSchema location = .ok .freeFormMap := by
  have hobject : Schema.objectType tagsSchema location = .ok .freeFormMap := by
    rw [Schema.objectType]
    rfl
  rw [Schema.mappingType]
  change (Schema.objectType tagsSchema location >>= _) = _
  rw [hobject]
  rfl

theorem typeOf_nothing (location : String) :
    Schema.typeOf (.ofEntries []) location = .ok .emptyShape := by
  have hobject : Schema.objectType [] location = .ok .emptyShape := by
    rw [Schema.objectType]
    rfl
  rw [Value.ofEntries, Schema.typeOf_mapping rfl, Schema.mappingType]
  change (Schema.objectType [] location >>= _) = _
  rw [hobject]
  rfl

theorem contentType_pet (location : String) :
    Schema.contentType (.ofEntries [(.str "content", .ofEntries [
      (.str "application/json", .ofEntries [(.str "schema", .ofEntries [])])])]) location =
      .ok .emptyShape := by
  rw [← typeOf_nothing (location ++ "/content/" ++ "application/json" ++ "/schema")]
  rfl

theorem interfaces_haveBodies_pets :
    (isObjectSchema (.map none tagsSchema) = true ∧
      ∃ t, Schema.mappingType tagsSchema "#" = .ok t ∧ t.isObject = true) ∧
    (∃ b t d, Returns (declareSchemas (.map none tagsSchemas)) .start b t ∧ d ∈ b.statements ∧
      d.kind = .interface ∧ d.HasBody) ∧
    (∃ b t d, Returns (declareBodies responses petBodies) .start b t ∧ d ∈ b.statements ∧
      d.kind = .interface ∧ d.HasBody) ∧
    ∃ d, declaration "Pet" .emptyShape .null = .ok d ∧ d.kind = .interface ∧ d.HasBody := by
  obtain ⟨hobject, hschemas, hbodies, hdeclaration⟩ := interfaces_haveBodies
  have hdeclared : SchemasDeclared tagsSchemas _ :=
    .cons ⟨"Tags", rfl, declareSchema_object none tagsSchema "Tags" rfl rfl
      (mappingType_tagsSchema _)⟩ .nil
  have hdeclared' : BodiesDeclared responses petBodies.members _ :=
    .cons ⟨"Pet", .emptyShape, rfl, contentType_pet _, rfl⟩ .nil
  obtain ⟨t, hrun⟩ := returns_declareSchemas rfl hdeclared .start
  obtain ⟨u, hrun'⟩ := returns_declareBodies rfl hdeclared' .start
  refine ⟨⟨rfl, _, mappingType_tagsSchema "#", hobject none _ _ _ rfl (mappingType_tagsSchema "#")⟩,
    ⟨_, t, _, hrun, List.mem_singleton_self _, rfl,
      hschemas _ _ _ _ hrun _ (List.mem_singleton_self _) rfl⟩,
    ⟨_, u, _, hrun', List.mem_singleton_self _, rfl,
      hbodies _ _ _ _ _ hrun' _ (List.mem_singleton_self _) rfl⟩,
    _, rfl, rfl, hdeclaration "Pet" .emptyShape .null _ rfl rfl⟩

end Examples

end Declaration

end ApiBindings
