import ApiBindings.Hook.Mutation
import ApiBindings.Operation.Types
import ApiBindings.Proofs.Declaration.Declared
import ApiBindings.Proofs.TypeExpr.Described

/-!
Descriptions in what is written of a document. Main statement: fields, declarations and hooks are
read as they are without a description, unless this holds the end of a comment.
-/

namespace ApiBindings

open Text (Occurs SameCode Exchangeable Settled)

namespace Naming

theorem sameCode_docCommentOf {description : Value} {tab : Nat} {comment : String}
    (h : docCommentOf description tab = .ok comment)
    (hdescription : ∀ text, description = .str text → ¬ Occurs "*/" text) :
    SameCode comment "" := by
  unfold docCommentOf at h
  split_ifs at h
  · obtain ⟨text, htext, h⟩ := bind_eq_ok.mp h
    cases pure_eq_ok.mp h
    exact sameCode_docComment (hdescription text (Value.expectText_ok htext)) tab
  · cases h
    exact .refl rfl

end Naming

namespace Declaration

variable {name : String} {t : TypeExpr} {d : Statement}

theorem Statement.exchangeable_text (h : SameCode d.before "") :
    Exchangeable d.text { d with before := "" }.text := by
  simpa only [text, String.append_assoc] using
    h.exchangeable ("export " ++ d.kind.keyword ++ " " ++ d.name ++ d.after)

theorem sameCode_emptyInterfaceMarker : SameCode emptyInterfaceMarker "" := ⟨by decide, by decide⟩

theorem sameCode_before_declareAs {comment : String} (h : SameCode comment "") :
    SameCode (declareAs comment name t).before "" := by
  unfold declareAs
  split_ifs
  · exact sameCode_emptyInterfaceMarker
  · exact h
  · exact h

theorem sameCode_before_declaration {description : Value}
    (hdescription : ∀ text, description = .str text → ¬ Occurs "*/" text)
    (h : declaration name t description = .ok d) : SameCode d.before "" := by
  obtain ⟨comment, hcomment, rfl⟩ := declaration_ok h
  refine sameCode_before_declareAs ?_
  rcases hcomment with rfl | hcomment
  · exact .refl rfl
  · exact Naming.sameCode_docCommentOf hcomment hdescription

theorem sameCode_before_declareSchema {label : Option Nat} {es : Entries} {location : String}
    (hdescription : ∀ text, es.get "description" = .str text → ¬ Occurs "*/" text)
    (h : declareSchema name (.map label es) location = .ok d) : SameCode d.before "" := by
  have hinline : ∀ text, Schema.inlineDescription (.map label es) = .str text →
      ¬ Occurs "*/" text := by
    intro text htext
    rw [Schema.inlineDescription] at htext
    split_ifs at htext
    · cases htext
    · exact hdescription text htext
  rcases declareSchema_ok h with
    ⟨label, es, t, comment, hschema, -, -, hcomment, rfl⟩ | ⟨t, comment, -, hcomment, rfl⟩
  · cases hschema
    have hmarker : SameCode (if t.isEmptyShape then emptyInterfaceMarker else "") "" := by
      split_ifs
      · exact sameCode_emptyInterfaceMarker
      · exact .refl rfl
    exact (Naming.sameCode_docCommentOf hcomment hdescription).append hmarker
  · exact Naming.sameCode_docCommentOf hcomment hinline

end Declaration

namespace Hook

open Operation (Metadata)

theorem text_block (h : Hook) (m : Metadata) (description : String) :
    (h.block { m with description := description }).text = Naming.docComment description 0 ++
      ("\n" ++ Text.joinWith "" ((h.block m).statements.map Declaration.Statement.text)) := by
  change Naming.docComment description 0 ++ "\n" ++
    Text.joinWith "" ((h.block m).statements.map Declaration.Statement.text) ++ "" = _
  rw [String.append_empty, String.append_assoc]

end Hook

namespace Naming

open Declaration (Statement declaration declareSchema)
open Operation (Member Metadata)

/-- Nothing of the description is read as code, in a comment anywhere, in front of a field, of a
member, of a declaration or of the hooks of an operation. -/
structure Contained (description : String) : Prop where
  comment : ∀ tab, Exchangeable (docComment description tab) ""
  field : ∀ {f : Field} (type : String), f.description = some description →
    Exchangeable (TypeExpr.renderField f type)
      (TypeExpr.renderField { f with description := none } type)
  member : ∀ {m : Member}, m.comment = docComment description 2 →
    Exchangeable m.text { m with comment := "" }.text
  declaration : ∀ {name : String} {t : TypeExpr} {d : Statement},
    declaration name t (.str description) = .ok d → Exchangeable d.text { d with before := "" }.text
  schema : ∀ {label : Option Nat} {es : Entries} {name location : String} {d : Statement},
    es.get "description" = .str description → declareSchema name (.map label es) location = .ok d →
    Exchangeable d.text { d with before := "" }.text
  hooks : ∀ (h : Hook) {m : Metadata}, m.description = description →
    Exchangeable (h.block m).text (h.block { m with description := "" }).text

theorem contained_of_not_occurs {description : String} (h : ¬ Occurs "*/" description) :
    Contained description where
  comment := by
    intro tab
    simpa only [String.append_empty] using (sameCode_docComment h tab).exchangeable ""
  field := by
    intro f type hf
    have hindent : Settled "  " := by decide
    have hcomment := (SameCode.refl hindent).append (sameCode_docComment h 2)
    simpa only [TypeExpr.renderField, hf, Option.getD_some, Option.getD_none, docComment_empty,
      String.append_assoc] using hcomment.exchangeable _
  member := by
    intro m hm
    have hcomment : SameCode m.comment "" := hm ▸ sameCode_docComment h 2
    simpa only [Member.text, String.append_assoc] using hcomment.exchangeable _
  declaration := by
    intro name t d hd
    refine Statement.exchangeable_text
      (Declaration.sameCode_before_declaration (fun text htext => ?_) hd)
    cases htext
    exact h
  schema := by
    intro label es name location d hget hd
    refine Statement.exchangeable_text
      (Declaration.sameCode_before_declareSchema (fun text htext => ?_) hd)
    cases hget.symm.trans htext
    exact h
  hooks := by
    intro hook m hm
    have htext : (hook.block m).text = _ := hook.text_block m m.description
    rw [htext, hook.text_block m "", hm]
    exact (sameCode_docComment h 0).exchangeable _

/-- The comment of a description begins as one, and the description can be read back from it. It has
one end, with a line break and the indentation behind it, just if no such end is in the description.
Nothing of this is read as code then, and nothing of the descriptions in a type at any depth. -/
theorem docComment_encloses {description : String} (h : description ≠ "") (tab : Nat) :
    (∃ rest, docComment description tab = "/**" ++ rest) ∧
      described (docComment description tab) tab = description ∧
      (ClosesOnce (docComment description tab) ("\n" ++ indent tab) ↔
        ¬ Occurs "*/" description) ∧
      (¬ Occurs "*/" description → Contained description) ∧
      ∀ t : TypeExpr, t.Enclosed → SameCode t.render t.undescribed.render := by
  have hrest : '/' ∉ ("\n" ++ indent tab).toList := by
    rw [String.toList_append, List.mem_append]
    refine not_or.mpr ⟨by decide, fun hmem => ?_⟩
    exact absurd (blank_of_mem_indent _ hmem) (by decide)
  refine ⟨?_, described_docComment h tab, ?_, contained_of_not_occurs, fun t ht => ht.sameCode⟩
  · rw [docComment_lines h]
    simp only [String.append_assoc]
    exact ⟨_, rfl⟩
  · rw [docComment_eq h, closesOnce_iff hrest, occurs_front_iff]

theorem docComment_encloses_petNote :
    "A pet.\n* not / the end" ≠ "" ∧ ¬ Occurs "*/" "A pet.\n* not / the end" ∧
      (∃ rest, docComment "A pet.\n* not / the end" 2 = "/**" ++ rest) ∧
      described (docComment "A pet.\n* not / the end" 2) 2 = "A pet.\n* not / the end" ∧
      ClosesOnce (docComment "A pet.\n* not / the end" 2) ("\n" ++ indent 2) ∧
      Contained "A pet.\n* not / the end" ∧
      ∀ t : TypeExpr, t.Enclosed → SameCode t.render t.undescribed.render := by
  have hfilled : "A pet.\n* not / the end" ≠ "" := by decide
  have hinside : ¬ Occurs "*/" "A pet.\n* not / the end" := by decide
  obtain ⟨hopens, hback, honce, hcontained, htypes⟩ := docComment_encloses hfilled 2
  exact ⟨hfilled, hinside, hopens, hback, honce.mpr hinside, hcontained hinside, htypes⟩

theorem docComment_ended :
    ¬ ClosesOnce (docComment "a */ b" 0) ("\n" ++ indent 0) ∧
      (Text.read .code (docComment "a */ b" 0).toList).1 = "b*/".toList := by
  have hrest : '/' ∉ ("\n" ++ indent 0).toList := by decide
  refine ⟨?_, by decide⟩
  rw [docComment_eq (by decide), closesOnce_iff hrest, occurs_front_iff, not_not]
  decide

end Naming

end ApiBindings
