import ApiBindings.Proofs.Text.Occurrence
import ApiBindings.TypeExpr.Render

/-!
The parts of an expression. Main statement: the text of every part that is rendered stands in the
text of the expression.
-/

namespace ApiBindings.TypeExpr

open Text (Occurs)

theorem renderMembers_eq_map (ts : List TypeExpr) : renderMembers ts = ts.map render := by
  induction ts with
  | nil => rfl
  | cons t ts ih => rw [renderMembers, ih, List.map_cons]

theorem renderFactors_eq_map (ts : List TypeExpr) :
    renderFactors ts = ts.map fun t => parenthesized t.isAlternatives t.render := by
  induction ts with
  | nil => rfl
  | cons t ts ih => rw [renderFactors, ih, List.map_cons]

theorem renderFields_eq_map (fields : List (Field × TypeExpr)) :
    renderFields fields = fields.map fun f => renderField f.1 f.2.render := by
  induction fields with
  | nil => rfl
  | cons f fields ih => rw [renderFields, ih, List.map_cons]

/-- A part that is rendered with the expression. A tuple without places does not render its item. -/
inductive Shows : TypeExpr → TypeExpr → Prop
  | self (t : TypeExpr) : Shows t t
  | item {item r : TypeExpr} : Shows item r → Shows (.array item) r
  | place {item r : TypeExpr} {length : Int} : 0 < length → Shows item r →
    Shows (.tuple item length) r
  | field {fields : List (Field × TypeExpr)} {index : Option TypeExpr} {f : Field × TypeExpr}
    {r : TypeExpr} : f ∈ fields → Shows f.2 r → Shows (.shape fields index) r
  | index {fields : List (Field × TypeExpr)} {t r : TypeExpr} : Shows t r →
    Shows (.shape fields (some t)) r
  | member {ts : List TypeExpr} {t r : TypeExpr} : t ∈ ts → Shows t r → Shows (.union ts) r
  | factor {ts : List TypeExpr} {t r : TypeExpr} : t ∈ ts → Shows t r → Shows (.intersection ts) r
  | inner {t r : TypeExpr} {keys : List String} : Shows t r → Shows (.requiring t keys) r

theorem occurs_parenthesized (needed : Bool) (text : String) :
    Occurs text (parenthesized needed text) := by
  cases needed with
  | false => exact .refl text
  | true => exact ((Occurs.refl text).append_left "(").append_right ")"

theorem render_shape {fields : List (Field × TypeExpr)} {index : Option TypeExpr}
    (h : fields ≠ [] ∨ index ≠ none) : (TypeExpr.shape fields index).render =
      "\x7b\n" ++ Text.joinWith "\n" (renderFields fields ++ renderIndex index) ++ "\n\x7d" := by
  rw [render]
  rintro rfl rfl
  simp at h

theorem occurs_shape {fields : List (Field × TypeExpr)} {index : Option TypeExpr} {line : String}
    (h : line ∈ renderFields fields ++ renderIndex index) :
    Occurs line (TypeExpr.shape fields index).render := by
  have hne : fields ≠ [] ∨ index ≠ none := by
    by_contra hempty
    simp only [ne_eq, not_or, not_not] at hempty
    rw [hempty.1, hempty.2] at h
    cases h
  rw [render_shape hne]
  exact ((Occurs.joinWith h "\n").append_left _).append_right _

theorem Shows.occurs {t r : TypeExpr} (h : Shows t r) : Occurs r.render t.render := by
  induction h with
  | self t => exact .refl _
  | item _ ih =>
    rw [render]
    exact (ih.trans (occurs_parenthesized _ _)).append_right _
  | @place item _ length hlength _ ih =>
    rw [render]
    have hmem : parenthesized item.isComposite item.render ∈
        List.replicate length.toNat (parenthesized item.isComposite item.render) := by
      rw [List.mem_replicate]
      exact ⟨by omega, rfl⟩
    have hplace := ih.trans (occurs_parenthesized item.isComposite _)
    exact ((hplace.trans (.joinWith hmem ", ")).append_left _).append_right _
  | @field fields index f _ hf _ ih =>
    have hline : renderField f.1 f.2.render ∈ renderFields fields ++ renderIndex index := by
      rw [renderFields_eq_map]
      exact List.mem_append_left _ (List.mem_map_of_mem hf)
    exact ((ih.append_left _).append_right ";").trans (occurs_shape hline)
  | @index fields t _ _ ih =>
    have hline : "  [key: string]: " ++ t.render ++ ";" ∈
        renderFields fields ++ renderIndex (some t) :=
      List.mem_append_right _ List.mem_cons_self
    exact ((ih.append_left "  [key: string]: ").append_right ";").trans (occurs_shape hline)
  | member ht _ ih =>
    rw [render, renderMembers_eq_map]
    exact ih.trans (.joinWith (List.mem_map_of_mem ht) " | ")
  | @factor ts t _ ht _ ih =>
    rw [render, renderFactors_eq_map]
    have hmem : parenthesized t.isAlternatives t.render ∈
        ts.map fun t => parenthesized t.isAlternatives t.render :=
      List.mem_map_of_mem ht
    exact (ih.trans (occurs_parenthesized _ _)).trans (.joinWith hmem " & ")
  | inner _ ih =>
    rw [render]
    exact (((ih.append_left "Require<").append_right ", ").append_right _).append_right ">"

def Requires (t : TypeExpr) : Prop := ∃ inner keys, t.Shows (.requiring inner keys)

theorem Requires.mono {t u : TypeExpr} (h : t.Requires) (hshows : ∀ r, t.Shows r → u.Shows r) :
    u.Requires := by
  obtain ⟨inner, keys, hr⟩ := h
  exact ⟨inner, keys, hshows _ hr⟩

theorem Requires.occurs {t : TypeExpr} (h : t.Requires) : Occurs "Require<" t.render := by
  obtain ⟨inner, keys, hshows⟩ := h
  have hmarker : Occurs "Require<" (TypeExpr.requiring inner keys).render := by
    rw [render]
    exact ((((Occurs.refl _).append_right _).append_right ", ").append_right _).append_right ">"
  exact hmarker.trans hshows.occurs

end ApiBindings.TypeExpr
