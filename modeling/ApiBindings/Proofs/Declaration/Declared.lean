import ApiBindings.Proofs.Declaration.Registered
import ApiBindings.Proofs.Document.Entries
import ApiBindings.Proofs.Document.Pointer
import ApiBindings.Proofs.Schema.Resolve

/-!
The declarations of components. Main statements: every member of a collection is declared under its
name with its type, and a reference to a member names its declaration.
-/

namespace ApiBindings.Declaration

def schemaSection : BodySection := ⟨"schemas", ""⟩

def sections : List BodySection := [schemaSection, requestBodies, responses]

def BodySection.pointer (part : BodySection) (segment : String) : String :=
  "#/components/" ++ part.key ++ "/" ++ segment

/-- Roots of which none begins with another lead to the collection of their own. -/
theorem target?_append {roots : List (String × String)} {root suffix : String}
    (hroot : (root, suffix) ∈ roots)
    (hapart : roots.Pairwise fun a b =>
      ¬ a.1.toList <+: b.1.toList ∧ ¬ b.1.toList <+: a.1.toList) (segment : String) :
    Schema.target? (root ++ segment) roots = some (suffix, segment) := by
  induction roots with
  | nil => cases hroot
  | cons other rest ih =>
    rw [List.pairwise_cons] at hapart
    obtain ⟨start, ending⟩ := other
    rcases List.mem_cons.mp hroot with heq | hrest
    · cases heq
      rw [Schema.target?, Text.dropStart?_append]
    · obtain ⟨hp, hq⟩ := hapart.1 _ hrest
      rw [Schema.target?, Text.dropStart?_apart hp hq]
      exact ih hrest hapart.2

theorem target?_pointer {part : BodySection} (h : part ∈ sections) (segment : String) :
    Schema.target? (part.pointer segment) Schema.collections = some (part.suffix, segment) := by
  have hroot : ("#/components/" ++ part.key ++ "/", part.suffix) ∈ Schema.collections := by
    revert part
    decide
  exact target?_append hroot (by decide) segment

theorem referencedName_pointer {part : BodySection} {key name : String} {location : Option String}
    (hpart : part ∈ sections)
    (h : Schema.referencedName (part.pointer (Pointer.escape key)) location = .ok name) :
    ∃ plain, Naming.pascalCase key = .ok plain ∧ name = plain ++ part.suffix := by
  rw [Schema.referencedName, target?_pointer hpart] at h
  dsimp only at h
  rw [Text.splitAt_of_not_mem (Pointer.not_mem_escape key), List.getLastD_cons,
    List.getLastD_nil, Pointer.unescape_escape] at h
  obtain ⟨plain, hplain, h⟩ := bind_eq_ok.mp h
  exact ⟨plain, hplain, (pure_eq_ok.mp h).symm⟩

def Statement.Writes (d : Statement) (t : TypeExpr) : Prop :=
  d.after = " " ++ t.render ∨ d.after = " = " ++ t.render ++ ";"

/-- The statement declares a member of the collection under its name, with the type that it has
where it stands. -/
def Declares (part : BodySection) (typed : Value → String → Except Fault TypeExpr)
    (e : Scalar × Value) (d : Statement) : Prop :=
  ∃ name t, Naming.pascalCaseOf (.scalar e.1) = .ok name ∧ d.name = name ++ part.suffix ∧
    typed e.2 (part.pointer e.1.text) = .ok t ∧ d.Writes t

theorem declareAs_writes (comment name : String) (t : TypeExpr) :
    (declareAs comment name t).Writes t := by
  unfold declareAs
  split_ifs
  · exact .inl rfl
  · exact .inl rfl
  · exact .inr rfl

theorem declaration_writes {name : String} {t : TypeExpr} {description : Value} {d : Statement}
    (h : declaration name t description = .ok d) : d.Writes t := by
  obtain ⟨comment, -, rfl⟩ := declaration_ok h
  exact declareAs_writes comment name t

theorem declareSchema_writes {name location : String} {schema : Value} {d : Statement}
    (h : declareSchema name schema location = .ok d) :
    ∃ t, Schema.typeOf schema location = .ok t ∧ d.Writes t := by
  rcases declareSchema_ok h with
    ⟨label, es, t, comment, rfl, hobject, ht, -, rfl⟩ | ⟨t, comment, ht, -, rfl⟩
  · have href : Schema.reference? es = none := by
      simp only [isObjectSchema, Bool.and_eq_true, Option.isNone_iff_eq_none] at hobject
      exact hobject.1.1.1.1
    exact ⟨t, (Schema.typeOf_mapping href location).trans ht, .inl rfl⟩
  · exact ⟨t, ht, .inr rfl⟩

def SchemasDeclared (schemas : Entries) (declared : List Statement) : Prop :=
  List.Forall₂ (fun e d => ∃ name, Naming.pascalCaseOf (.scalar e.1) = .ok name ∧
    declareSchema name e.2 (schemaSection.pointer e.1.text) = .ok d) schemas declared

def BodiesDeclared (part : BodySection) (bodies : Entries) (declared : List Statement) : Prop :=
  List.Forall₂ (fun e d => ∃ name type, Naming.pascalCaseOf (.scalar e.1) = .ok name ∧
    Schema.contentType e.2 (part.pointer e.1.text) = .ok type ∧
    declaration (name ++ part.suffix) type (Schema.inlineDescription e.2) = .ok d) bodies declared

theorem declareSchemas_steps {schemas : Value} {s t : Session} {b : Block}
    (h : Returns (declareSchemas schemas) s b t) :
    SchemasDeclared schemas.members b.statements := by
  rw [declareSchemas] at h
  split_ifs at h with hfilled
  · obtain ⟨es, hes, h⟩ := returns_lift_bind.mp h
    cases Value.entries_ok hes
    obtain ⟨ds, u, hds, h⟩ := returns_bind.mp h
    obtain ⟨rfl, rfl⟩ := returns_pure.mp h
    refine (forall₂_of_returns_mapM hds).imp fun e d hd => ?_
    obtain ⟨v, w, hd⟩ := hd
    obtain ⟨name, hname, hd⟩ := returns_lift_bind.mp hd
    obtain ⟨_, x, -, hd⟩ := returns_bind.mp hd
    obtain ⟨d', hdecl, hd⟩ := returns_lift_bind.mp hd
    obtain ⟨_, y, -, hd⟩ := returns_bind.mp hd
    obtain ⟨rfl, -⟩ := returns_pure.mp hd
    exact ⟨name, hname, hdecl⟩
  · obtain ⟨rfl, rfl⟩ := returns_pure.mp h
    rw [Value.members_of_not_isFilled hfilled]
    exact .nil

theorem declareBodies_steps {part : BodySection} {bodies : Value} {s t : Session} {b : Block}
    (h : Returns (declareBodies part bodies) s b t) :
    BodiesDeclared part bodies.members b.statements := by
  rw [declareBodies] at h
  split_ifs at h with hfilled
  · obtain ⟨es, hes, h⟩ := returns_lift_bind.mp h
    cases Value.entries_ok hes
    obtain ⟨ds, u, hds, h⟩ := returns_bind.mp h
    obtain ⟨rfl, rfl⟩ := returns_pure.mp h
    refine (forall₂_of_returns_mapM hds).imp fun e d hd => ?_
    obtain ⟨v, w, hd⟩ := hd
    obtain ⟨name, hname, hd⟩ := returns_lift_bind.mp hd
    obtain ⟨_, x, -, hd⟩ := returns_bind.mp hd
    obtain ⟨type, htype, hd⟩ := returns_lift_bind.mp hd
    exact ⟨name, type, hname, htype, (returns_lift.mp hd).1⟩
  · obtain ⟨rfl, rfl⟩ := returns_pure.mp h
    rw [Value.members_of_not_isFilled hfilled]
    exact .nil

theorem returns_declareSchemas {label : Option Nat} {schemas : Entries}
    {declared : List Statement} (hfilled : (Value.map label schemas).isFilled = true)
    (h : SchemasDeclared schemas declared) (s : Session) :
    ∃ t, Returns (declareSchemas (.map label schemas)) s ⟨"", declared, "\n\n", "\n"⟩ t := by
  rw [declareSchemas, if_pos hfilled]
  refine ⟨_, returns_lift_bind.mpr ⟨schemas, rfl, returns_bind.mpr ⟨declared, _,
    (returns_mapM_of_forall₂ ?_ s).choose_spec, returns_pure.mpr ⟨rfl, rfl⟩⟩⟩⟩
  refine h.imp ?_
  rintro ⟨key, schema⟩ d ⟨name, hname, hd⟩ s
  exact ⟨_, returns_lift_bind.mpr ⟨name, hname, returns_bind.mpr ⟨(), _, rfl,
    returns_lift_bind.mpr ⟨d, hd, rfl⟩⟩⟩⟩

theorem returns_declareBodies {part : BodySection} {label : Option Nat} {bodies : Entries}
    {declared : List Statement} (hfilled : (Value.map label bodies).isFilled = true)
    (h : BodiesDeclared part bodies declared) (s : Session) :
    ∃ t, Returns (declareBodies part (.map label bodies)) s ⟨"\n", declared, "\n\n", "\n"⟩ t := by
  rw [declareBodies, if_pos hfilled]
  refine ⟨_, returns_lift_bind.mpr ⟨bodies, rfl, returns_bind.mpr ⟨declared, _,
    (returns_mapM_of_forall₂ ?_ s).choose_spec, returns_pure.mpr ⟨rfl, rfl⟩⟩⟩⟩
  refine h.imp ?_
  rintro ⟨key, body⟩ d ⟨name, type, hname, htype, hd⟩ s
  exact ⟨_, returns_lift_bind.mpr ⟨name, hname, returns_bind.mpr ⟨(), _, rfl,
    returns_lift_bind.mpr ⟨type, htype, returns_lift.mpr ⟨hd, rfl⟩⟩⟩⟩⟩

theorem declareSchemas_returns {schemas : Value} {s t : Session} {b : Block}
    (h : Returns (declareSchemas schemas) s b t) :
    List.Forall₂ (Declares schemaSection Schema.typeOf) schemas.members b.statements := by
  refine (declareSchemas_steps h).imp fun e d ⟨name, hname, hdecl⟩ => ?_
  obtain ⟨type, htype, hwrites⟩ := declareSchema_writes hdecl
  refine ⟨name, type, hname, ?_, htype, hwrites⟩
  rw [declareSchema_name hdecl]
  exact (String.append_empty).symm

theorem declareBodies_returns {part : BodySection} {bodies : Value} {s t : Session} {b : Block}
    (h : Returns (declareBodies part bodies) s b t) :
    List.Forall₂ (Declares part Schema.contentType) bodies.members b.statements :=
  (declareBodies_steps h).imp fun _ _ ⟨name, type, hname, htype, hdecl⟩ =>
    ⟨name, type, hname, declaration_name hdecl, htype, declaration_writes hdecl⟩

theorem componentBlocks_returns {components : Entries} {s t : Session} {bs : List Block}
    (h : Returns (componentBlocks (.ofEntries components)) s bs t) :
    ∃ schemas bodies answers u v, bs = [schemas, bodies, answers] ∧
      Returns (declareSchemas (components.get "schemas")) s schemas u ∧
      Returns (declareBodies requestBodies (components.get "requestBodies")) u bodies v ∧
      Returns (declareBodies responses (components.get "responses")) v answers t := by
  rw [componentBlocks] at h
  obtain ⟨es, hes, h⟩ := returns_lift_bind.mp h
  cases Value.entriesOrNone_ok hes
  obtain ⟨schemas, u, hschemas, h⟩ := returns_bind.mp h
  obtain ⟨bodies, v, hbodies, h⟩ := returns_bind.mp h
  obtain ⟨answers, w, hanswers, h⟩ := returns_bind.mp h
  obtain ⟨rfl, rfl⟩ := returns_pure.mp h
  exact ⟨schemas, bodies, answers, u, v, rfl, hschemas, hbodies, hanswers⟩

inductive ComponentType (components : Entries) : TypeExpr → Prop
  | schema {e : Scalar × Value} {t : TypeExpr} : e ∈ (components.get "schemas").members →
    Schema.typeOf e.2 (schemaSection.pointer e.1.text) = .ok t → ComponentType components t
  | body {part : BodySection} {e : Scalar × Value} {t : TypeExpr} :
    part = requestBodies ∨ part = responses → e ∈ (components.get part.key).members →
    Schema.contentType e.2 (part.pointer e.1.text) = .ok t → ComponentType components t

theorem Declares.type {part : BodySection} {typed : Value → String → Except Fault TypeExpr}
    {e : Scalar × Value} {d : Statement} (h : Declares part typed e d) :
    ∃ t, typed e.2 (part.pointer e.1.text) = .ok t ∧ d.Writes t := by
  obtain ⟨-, t, -, -, ht, hwrites⟩ := h
  exact ⟨t, ht, hwrites⟩

theorem componentBlocks_writes {components : Entries} {s t : Session} {bs : List Block}
    (h : Returns (componentBlocks (.ofEntries components)) s bs t) :
    ∀ d ∈ bs.flatMap Block.statements, ∃ t, ComponentType components t ∧ d.Writes t := by
  obtain ⟨schemas, bodies, answers, u, v, rfl, hschemas, hbodies, hanswers⟩ :=
    componentBlocks_returns h
  intro d hd
  simp only [List.mem_flatMap, List.mem_cons, List.not_mem_nil, or_false, exists_eq_or_imp,
    exists_eq_left] at hd
  rcases hd with hd | hd | hd
  · obtain ⟨e, he, hdeclares⟩ := exists_left_of_forall₂ (declareSchemas_returns hschemas) hd
    obtain ⟨t, ht, hwrites⟩ := hdeclares.type
    exact ⟨t, .schema he ht, hwrites⟩
  · obtain ⟨e, he, hdeclares⟩ := exists_left_of_forall₂ (declareBodies_returns hbodies) hd
    obtain ⟨t, ht, hwrites⟩ := hdeclares.type
    exact ⟨t, .body (.inl rfl) he ht, hwrites⟩
  · obtain ⟨e, he, hdeclares⟩ := exists_left_of_forall₂ (declareBodies_returns hanswers) hd
    obtain ⟨t, ht, hwrites⟩ := hdeclares.type
    exact ⟨t, .body (.inr rfl) he ht, hwrites⟩

theorem pascalCaseOf_str (key : String) :
    Naming.pascalCaseOf (.str key) = Naming.pascalCase key := by
  unfold Naming.pascalCaseOf
  split_ifs with hfilled
  · rfl
  · have hempty : key = "" := by simpa [Value.isFilled, Scalar.isFilled] using hfilled
    rw [hempty]
    rfl

theorem names_of_declares {part : BodySection} {typed : Value → String → Except Fault TypeExpr}
    {members : Entries} {b : Block} (h : List.Forall₂ (Declares part typed) members b.statements)
    {key : String} {v : Value} (hkey : (.str key, v) ∈ members) :
    ∃ name, Naming.pascalCase key = .ok name ∧ name ++ part.suffix ∈ b.names := by
  obtain ⟨d, hd, name, t, hname, hdname, -⟩ := exists_right_of_forall₂ h hkey
  rw [pascalCaseOf_str] at hname
  exact ⟨name, hname, List.mem_map.mpr ⟨d, hd, hdname⟩⟩

theorem componentBlocks_declares {components : Entries} {s t : Session} {bs : List Block}
    (h : Returns (componentBlocks (.ofEntries components)) s bs t) {part : BodySection}
    (hpart : part ∈ sections) {key : String} {v : Value}
    (hkey : (.str key, v) ∈ (components.get part.key).members) :
    ∃ name, Naming.pascalCase key = .ok name ∧ name ++ part.suffix ∈ bs.flatMap Block.names := by
  obtain ⟨schemas, bodies, answers, u, w, rfl, hschemas, hbodies, hanswers⟩ :=
    componentBlocks_returns h
  have hblock : ∃ b ∈ [schemas, bodies, answers], ∃ name, Naming.pascalCase key = .ok name ∧
      name ++ part.suffix ∈ b.names := by
    simp only [sections, List.mem_cons, List.not_mem_nil, or_false] at hpart
    rcases hpart with rfl | rfl | rfl
    · exact ⟨schemas, by simp, names_of_declares (declareSchemas_returns hschemas) hkey⟩
    · exact ⟨bodies, by simp, names_of_declares (declareBodies_returns hbodies) hkey⟩
    · exact ⟨answers, by simp, names_of_declares (declareBodies_returns hanswers) hkey⟩
  obtain ⟨b, hb, name, hname, hmem⟩ := hblock
  exact ⟨name, hname, List.mem_flatMap.mpr ⟨b, hb, hmem⟩⟩

def PointsToMember (components : Entries) (ref : String) : Prop :=
  ∃ part ∈ sections, ∃ key v, (.str key, v) ∈ (components.get part.key).members ∧
    ref = part.pointer (Pointer.escape key)

theorem PointsToMember.declared {components : Entries} {s t : Session} {bs : List Block}
    {ref name : String} {location : Option String} (hmember : PointsToMember components ref)
    (h : Returns (componentBlocks (.ofEntries components)) s bs t)
    (hname : Schema.referencedName ref location = .ok name) :
    name ∈ bs.flatMap Block.names := by
  obtain ⟨part, hpart, key, v, hkey, rfl⟩ := hmember
  obtain ⟨plain, hplain, rfl⟩ := referencedName_pointer hpart hname
  obtain ⟨plain', hplain', hmem⟩ := componentBlocks_declares h hpart hkey
  cases hplain.symm.trans hplain'
  exact hmem

end ApiBindings.Declaration
