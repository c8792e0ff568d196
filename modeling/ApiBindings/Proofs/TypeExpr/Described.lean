import ApiBindings.Proofs.Naming.DocComment
import ApiBindings.Proofs.TypeExpr.Parts

/-!
Expressions without their descriptions. Main statement: the text of an expression is read as the one
without descriptions, at any depth, if no description holds the end of a comment.
-/

namespace ApiBindings

open Text (Occurs SameCode Settled)

namespace Naming

theorem settled_propertyKey (name : String) : Settled (propertyKey name) := by
  unfold propertyKey
  split_ifs with hid
  · have hspecial : ∀ d ∈ '/' :: Text.quotes, isIdentifierPart d = false := by decide
    have hbreak : '\n' ≠ '/' ∧ '\n' ∉ Text.quotes := by decide
    refine Text.settled_of_forall fun c hc => ?_
    rcases mem_dropFinal (x := '\n') hc with hkept | rfl
    · have hpart := isIdentifierPart_of_isBare hid c hkept
      have hplain : c ∉ '/' :: Text.quotes := fun hmem => by
        rw [hspecial c hmem] at hpart
        cases hpart
      exact not_or.mp (List.mem_cons.not.mp hplain)
    · exact hbreak
  · exact Text.settled_quote name

end Naming

namespace TypeExpr

mutual

def undescribed : TypeExpr → TypeExpr
  | .array item => .array (undescribed item)
  | .tuple item length => .tuple (undescribed item) length
  | .shape fields index => .shape (undescribedFields fields) (undescribedIndex index)
  | .union members => .union (undescribedAll members)
  | .intersection members => .intersection (undescribedAll members)
  | .requiring inner keys => .requiring (undescribed inner) keys
  | t => t

def undescribedAll : List TypeExpr → List TypeExpr
  | [] => []
  | t :: ts => undescribed t :: undescribedAll ts

def undescribedFields : List (Field × TypeExpr) → List (Field × TypeExpr)
  | [] => []
  | (field, t) :: rest =>
    ({ field with description := none }, undescribed t) :: undescribedFields rest

def undescribedIndex : Option TypeExpr → Option TypeExpr
  | none => none
  | some t => some (undescribed t)

end

theorem undescribedAll_eq_map (ts : List TypeExpr) : undescribedAll ts = ts.map undescribed := by
  induction ts with
  | nil => rfl
  | cons t ts ih => rw [undescribedAll, ih, List.map_cons]

theorem undescribedFields_eq_map (fields : List (Field × TypeExpr)) :
    undescribedFields fields =
      fields.map fun f => ({ f.1 with description := none }, f.2.undescribed) := by
  induction fields with
  | nil => rfl
  | cons f fields ih => rw [undescribedFields, ih, List.map_cons]

@[simp]
theorem isComposite_undescribed (t : TypeExpr) : t.undescribed.isComposite = t.isComposite := by
  cases t <;> rfl

@[simp]
theorem isAlternatives_undescribed (t : TypeExpr) :
    t.undescribed.isAlternatives = t.isAlternatives := by
  cases t <;> rfl

inductive Enclosed : TypeExpr → Prop
  | primitive {name : String} : Settled name → Enclosed (.primitive name)
  | named {name : String} : Settled name → Enclosed (.named name)
  | literals {tokens : List String} : (∀ x ∈ tokens, Settled x) → Enclosed (.literals tokens)
  | array {item : TypeExpr} : Enclosed item → Enclosed (.array item)
  | tuple {item : TypeExpr} {length : Int} : Enclosed item → Enclosed (.tuple item length)
  | freeFormMap : Enclosed .freeFormMap
  | shape {fields : List (Field × TypeExpr)} {index : Option TypeExpr} :
    (∀ f ∈ fields, ¬ Occurs "*/" (f.1.description.getD "")) →
    (∀ f ∈ fields, Enclosed f.2) → (∀ t ∈ index, Enclosed t) → Enclosed (.shape fields index)
  | union {ts : List TypeExpr} : (∀ t ∈ ts, Enclosed t) → Enclosed (.union ts)
  | intersection {ts : List TypeExpr} : (∀ t ∈ ts, Enclosed t) → Enclosed (.intersection ts)
  | requiring {inner : TypeExpr} {keys : List String} : Enclosed inner →
    Enclosed (.requiring inner keys)

theorem sameCode_parenthesized {needed : Bool} {x y : String} (h : SameCode x y) :
    SameCode (parenthesized needed x) (parenthesized needed y) := by
  cases needed with
  | false => exact h
  | true =>
    have hopen : Settled "(" := by decide
    have hclose : Settled ")" := by decide
    exact ((SameCode.refl hopen).append h).append (.refl hclose)

theorem sameCode_renderField {f : Field} {x y : String}
    (hdescription : ¬ Occurs "*/" (f.description.getD "")) (h : SameCode x y) :
    SameCode (renderField f x) (renderField { f with description := none } y) := by
  have hcomment : SameCode (Naming.docComment (f.description.getD "") 2) (Naming.docComment "" 2) :=
    Naming.sameCode_docComment hdescription 2
  have hindent : Settled "  " := by decide
  have hoptional : Settled (if f.required then "" else "?") := .ite (by decide) (by decide)
  have hcolon : Settled ": " := by decide
  have hsemicolon : Settled ";" := by decide
  have hkey := Naming.settled_propertyKey f.name
  exact (((((SameCode.refl hindent).append hcomment).append (.refl hkey)).append
    (.refl hoptional)).append (.refl hcolon)).append h |>.append (.refl hsemicolon)

/-- An expression is read as the one without descriptions. -/
theorem Enclosed.sameCode {t : TypeExpr} (h : Enclosed t) :
    SameCode t.render t.undescribed.render := by
  have hbar : Settled " | " := by decide
  induction h with
  | primitive hname => exact .refl hname
  | named hname => exact .refl hname
  | literals htokens => exact .refl (.joinWith hbar htokens)
  | array _ ih =>
    have hbrackets : Settled "[]" := by decide
    rw [undescribed, render, render, isComposite_undescribed]
    exact (sameCode_parenthesized ih).append (.refl hbrackets)
  | @tuple item length _ ih =>
    have hopen : Settled "[" := by decide
    have hclose : Settled "]" := by decide
    have hcomma : Settled ", " := by decide
    have hplaces {x y : String} (h : SameCode x y) (n : Nat) :
        List.Forall₂ SameCode (List.replicate n x) (List.replicate n y) := by
      induction n with
      | zero => exact .nil
      | succ n ih => exact .cons h ih
    rw [undescribed, render, render, isComposite_undescribed]
    exact ((SameCode.refl hopen).append
      (.joinWith hcomma (hplaces (sameCode_parenthesized ih) _))).append
      (.refl hclose)
  | freeFormMap => exact .refl (by decide)
  | @shape fields index hfields _ _ ihfields ihindex =>
    have hopen : Settled "\x7b\n" := by decide
    have hclose : Settled "\n\x7d" := by decide
    have hbreak : Settled "\n" := by decide
    have hfieldLines : List.Forall₂ SameCode (renderFields fields)
        (renderFields (undescribedFields fields)) := by
      rw [undescribedFields_eq_map, renderFields_eq_map, renderFields_eq_map, List.map_map]
      exact SameCode.map fun f hf => sameCode_renderField (hfields f hf) (ihfields f hf)
    have hindexLine : List.Forall₂ SameCode (renderIndex index)
        (renderIndex (undescribedIndex index)) := by
      cases index with
      | none => exact .nil
      | some t =>
        have hkey : Settled "  [key: string]: " := by decide
        have hsemicolon : Settled ";" := by decide
        exact .cons (((SameCode.refl hkey).append (ihindex t rfl)).append (.refl hsemicolon)) .nil
    have hlines := List.rel_append hfieldLines hindexLine
    by_cases hempty : fields ≠ [] ∨ index ≠ none
    · have hkept : undescribedFields fields ≠ [] ∨ undescribedIndex index ≠ none := by
        refine hempty.imp (fun h => ?_) fun h => ?_
        · rw [undescribedFields_eq_map]
          simpa using h
        · cases index with
          | none => exact absurd rfl h
          | some t => exact Option.some_ne_none _
      rw [undescribed, render_shape hempty, render_shape hkept]
      exact ((SameCode.refl hopen).append (.joinWith hbreak hlines)).append (.refl hclose)
    · simp only [ne_eq, not_or, not_not] at hempty
      rw [hempty.1, hempty.2]
      exact .refl (by decide)
  | union _ ih =>
    rw [undescribed, render, render, undescribedAll_eq_map, renderMembers_eq_map,
      renderMembers_eq_map, List.map_map]
    exact .joinWith hbar (SameCode.map ih)
  | intersection _ ih =>
    have hand : Settled " & " := by decide
    rw [undescribed, render, render, undescribedAll_eq_map, renderFactors_eq_map,
      renderFactors_eq_map, List.map_map]
    refine .joinWith hand (SameCode.map fun t ht => ?_)
    rw [Function.comp_apply, isAlternatives_undescribed]
    exact sameCode_parenthesized (ih t ht)
  | @requiring inner keys _ ih =>
    have hopen : Settled "Require<" := by decide
    have hcomma : Settled ", " := by decide
    have hclose : Settled ">" := by decide
    have hkeys : Settled (Text.joinWith " | " (keys.map Text.quote)) :=
      .joinWith hbar (List.forall_mem_map.mpr fun key _ => Text.settled_quote key)
    rw [undescribed, render, render]
    exact ((((SameCode.refl hopen).append ih).append (.refl hcomma)).append (.refl hkeys)).append
      (.refl hclose)

end TypeExpr

end ApiBindings
