import ApiBindings.Proofs.Declaration.Declared
import ApiBindings.Proofs.Schema.Unmarked

/-!
Markers in the declarations of components. Main statement: a marker is there only in the text of a
type that a component is declared with, and the text of each such type is there.
-/

namespace ApiBindings.Declaration

open Text (markers Occurs Quiet Fence Stopless)

variable {m : String} {d : Statement} {b : Block} {t : TypeExpr}

theorem Statement.text_onLines (d : Statement) : d.onLines.text = "\n" ++ d.text ++ "\n" := by
  simp only [onLines, text, String.append_assoc]

theorem Statement.Writes.occurs (h : d.Writes t) : Occurs t.render d.text := by
  have hafter : Occurs t.render d.after := by
    rcases h with h | h
    · rw [h]
      exact (Occurs.refl _).append_left " "
    · rw [h]
      exact ((Occurs.refl _).append_left " = ").append_right ";"
  exact hafter.append_left _

theorem Block.occurs_statement (hd : d ∈ b.statements) : Occurs d.text b.text :=
  ((Occurs.joinWith (List.mem_map_of_mem hd) b.separator).append_left _).append_right _

theorem occurs_of_declares {part : BodySection} {typed : Value → String → Except Fault TypeExpr}
    {members : Entries} (h : List.Forall₂ (Declares part typed) members b.statements)
    {e : Scalar × Value} (he : e ∈ members) (ht : typed e.2 (part.pointer e.1.text) = .ok t) :
    Occurs t.render b.text := by
  obtain ⟨d, hd, hdeclares⟩ := exists_right_of_forall₂ h he
  obtain ⟨t', ht', hwrites⟩ := hdeclares.type
  cases ht.symm.trans ht'
  exact hwrites.occurs.trans (Block.occurs_statement hd)

theorem ComponentType.occurs {components : Entries} {u v : Session} {bs : List Block}
    (ht : ComponentType components t)
    (h : Returns (componentBlocks (.ofEntries components)) u bs v) :
    ∃ b ∈ bs, Occurs t.render b.text := by
  obtain ⟨schemas, bodies, answers, x, y, rfl, hschemas, hbodies, hanswers⟩ :=
    componentBlocks_returns h
  cases ht with
  | schema he ht =>
    exact ⟨schemas, by simp, occurs_of_declares (declareSchemas_returns hschemas) he ht⟩
  | body hpart he ht =>
    rcases hpart with rfl | rfl
    · exact ⟨bodies, by simp, occurs_of_declares (declareBodies_returns hbodies) he ht⟩
    · exact ⟨answers, by simp, occurs_of_declares (declareBodies_returns hanswers) he ht⟩

/-- The texts around and between the statements end no marker. -/
structure Block.Plain (b : Block) : Prop where
  opening : Stopless b.opening
  separator : Stopless b.separator
  ending : Stopless b.ending

theorem plain_of_declarations {opening : String} (h : Stopless opening) (ds : List Statement) :
    Block.Plain ⟨opening, ds, "\n\n", "\n"⟩ := by
  have hbreak : Stopless "\n" := by decide
  have hline : Stopless "\n\n" := by decide
  exact ⟨h, hline, hbreak⟩

theorem plain_empty : Block.empty.Plain := ⟨by decide, by decide, by decide⟩

theorem declareSchemas_plain {schemas : Value} {u v : Session}
    (h : Returns (declareSchemas schemas) u b v) : b.Plain := by
  rw [declareSchemas] at h
  split_ifs at h
  · obtain ⟨es, -, h⟩ := returns_lift_bind.mp h
    obtain ⟨ds, w, -, h⟩ := returns_bind.mp h
    obtain ⟨rfl, -⟩ := returns_pure.mp h
    exact plain_of_declarations (by decide) ds
  · obtain ⟨rfl, -⟩ := returns_pure.mp h
    exact plain_empty

theorem declareBodies_plain {part : BodySection} {bodies : Value} {u v : Session}
    (h : Returns (declareBodies part bodies) u b v) : b.Plain := by
  rw [declareBodies] at h
  split_ifs at h
  · obtain ⟨es, -, h⟩ := returns_lift_bind.mp h
    obtain ⟨ds, w, -, h⟩ := returns_bind.mp h
    obtain ⟨rfl, -⟩ := returns_pure.mp h
    exact plain_of_declarations (by decide) ds
  · obtain ⟨rfl, -⟩ := returns_pure.mp h
    exact plain_empty

section Quiet

variable (hm : m ∈ markers)
include hm

theorem Statement.quiet (hbefore : Quiet m d.before) (hname : Stopless d.name)
    (hafter : Quiet m d.after) : Quiet m d.text := by
  have hexport : Quiet m "export " := Text.quiet_given hm (by decide)
  have hkeyword : Stopless d.kind.keyword := by
    cases d.kind <;> decide
  have hspace : Quiet m " " := Text.quiet_given hm (by decide)
  exact ((((hbefore.append hexport).append (hkeyword.quiet hm)).append hspace).append
    (hname.quiet hm)).append hafter

theorem Statement.quiet_onLines (h : Quiet m d.text) : Quiet m d.onLines.text := by
  have hbreak : Quiet m "\n" := Text.quiet_given hm (by decide)
  rw [d.text_onLines]
  exact (hbreak.append h).append hbreak

theorem Statement.Writes.quiet (h : d.Writes t) (ht : ¬ Occurs m t.render) : Quiet m d.after := by
  rcases h with h | h
  · have hspace : Fence m " " := Text.fence_given hm (by decide)
    rw [h]
    exact hspace.append ht
  · have hequals : Fence m " = " := Text.fence_given hm (by decide)
    have hsemicolon : Quiet m ";" := Text.quiet_given hm (by decide)
    rw [h]
    exact (hequals.append ht).append hsemicolon

theorem Block.Plain.quiet (h : b.Plain) (hstatements : ∀ d ∈ b.statements, Quiet m d.text) :
    Quiet m b.text :=
  ((h.opening.quiet hm).append (.joinWith (h.separator.quiet hm)
    (List.forall_mem_map.mpr hstatements))).append (h.ending.quiet hm)

theorem quiet_emptyInterfaceMarker : Quiet m emptyInterfaceMarker :=
  Stopless.quiet hm (by decide)

theorem docCommentOf_quiet {description : Value} {tab : Nat} {comment : String}
    (hdescription : description.Clear m) (h : Naming.docCommentOf description tab = .ok comment) :
    Quiet m comment := by
  refine Naming.quiet_docCommentOf hm h fun text htext => ?_
  rw [htext] at hdescription
  exact (Value.throughout_scalar.mp hdescription : Text.Clear m text).lacks

theorem declareSchema_quiet_before {name location : String} {schema : Value}
    (hschema : schema.Clear m) (h : declareSchema name schema location = .ok d) :
    Quiet m d.before := by
  rcases declareSchema_ok h with
    ⟨label, es, t, comment, rfl, -, -, hcomment, rfl⟩ | ⟨t, comment, -, hcomment, rfl⟩
  · have hdescription := (Value.throughout_map.mp hschema).get (Value.lasting_clear hm)
      "description"
    exact (docCommentOf_quiet hm hdescription hcomment).append
      (.ite (fun _ => quiet_emptyInterfaceMarker hm) fun _ => .empty m)
  · exact docCommentOf_quiet hm (Schema.inlineDescription_clear hm hschema) hcomment

theorem declareAs_quiet_before {comment name : String} (h : Quiet m comment) :
    Quiet m (declareAs comment name t).before := by
  unfold declareAs
  split_ifs
  · exact quiet_emptyInterfaceMarker hm
  · exact h
  · exact h

theorem declaration_quiet_before {name : String} {description : Value}
    (hdescription : description.Clear m) (h : declaration name t description = .ok d) :
    Quiet m d.before := by
  obtain ⟨comment, hcomment, rfl⟩ := declaration_ok h
  refine declareAs_quiet_before hm ?_
  rcases hcomment with rfl | hcomment
  · exact .empty m
  · exact docCommentOf_quiet hm hdescription hcomment

section Components

variable {components : Entries} {u v : Session}
  (htypes : ∀ t, ComponentType components t → ¬ Occurs m t.render)
include htypes

theorem declareSchemas_quiet (hschemas : (components.get "schemas").Clear m)
    (h : Returns (declareSchemas (components.get "schemas")) u b v) : Quiet m b.text := by
  refine (declareSchemas_plain h).quiet hm fun d hd => ?_
  obtain ⟨e, he, name, hname, hdeclare⟩ := exists_left_of_forall₂ (declareSchemas_steps h) hd
  obtain ⟨t, ht, hwrites⟩ := declareSchema_writes hdeclare
  have hmember := ((hschemas.members (Value.lasting_clear hm)).2 e he).2
  refine Statement.quiet hm (declareSchema_quiet_before hm hmember hdeclare) ?_
    (hwrites.quiet hm (htypes t (.schema he ht)))
  rw [declareSchema_name hdeclare]
  exact Naming.stopless_pascalCaseOf hname

theorem declareBodies_quiet {part : BodySection} (hpart : part = requestBodies ∨ part = responses)
    (hbodies : (components.get part.key).Clear m)
    (h : Returns (declareBodies part (components.get part.key)) u b v) : Quiet m b.text := by
  refine (declareBodies_plain h).quiet hm fun d hd => ?_
  obtain ⟨e, he, name, t, hname, ht, hdeclare⟩ := exists_left_of_forall₂ (declareBodies_steps h) hd
  have hmember := ((hbodies.members (Value.lasting_clear hm)).2 e he).2
  have hdescription := Schema.inlineDescription_clear hm hmember
  refine Statement.quiet hm (declaration_quiet_before hm hdescription hdeclare) ?_
    ((declaration_writes hdeclare).quiet hm (htypes t (.body hpart he ht)))
  have hsuffix : Stopless part.suffix := by
    rcases hpart with rfl | rfl <;> decide
  rw [declaration_name hdeclare]
  exact (Naming.stopless_pascalCaseOf hname).append hsuffix

/-- If no marker is in the types of the components, then none is in their declarations. -/
theorem componentBlocks_quiet {bs : List Block} (hclear : ∀ key, (components.get key).Clear m)
    (h : Returns (componentBlocks (.ofEntries components)) u bs v) : ∀ b ∈ bs, Quiet m b.text := by
  obtain ⟨schemas, bodies, answers, x, y, rfl, hschemas, hbodies, hanswers⟩ :=
    componentBlocks_returns h
  simp only [List.forall_mem_cons]
  refine ⟨declareSchemas_quiet hm htypes (hclear _) hschemas, ?_, ?_, List.forall_mem_nil _⟩
  · exact declareBodies_quiet hm htypes (.inl rfl) (hclear _) hbodies
  · exact declareBodies_quiet hm htypes (.inr rfl) (hclear _) hanswers

end Components

end Quiet

end ApiBindings.Declaration
