import ApiBindings.Proofs.Document.Clear
import ApiBindings.Proofs.Naming.Unmarked
import ApiBindings.Proofs.TypeExpr.Names
import ApiBindings.Proofs.TypeExpr.Parts

/-!
Expressions whose texts hold no marker. Main statement: nothing but an expression that makes fields
mandatory brings a marker into the text of an expression.
-/

namespace ApiBindings

open Text (markers stops Occurs Quiet Fence Stopless)

namespace TypeExpr

inductive Clear (m : String) : TypeExpr → Prop
  | primitive {name : String} : ¬ Occurs m name → Clear m (.primitive name)
  | named {name : String} : ¬ Occurs m name → Clear m (.named name)
  | literals {tokens : List String} : (∀ x ∈ tokens, ¬ Occurs m x) → Clear m (.literals tokens)
  | array {item : TypeExpr} : Clear m item → Clear m (.array item)
  | tuple {item : TypeExpr} {length : Int} : Clear m item → Clear m (.tuple item length)
  | freeFormMap : Clear m .freeFormMap
  | shape {fields : List (Field × TypeExpr)} {index : Option TypeExpr} :
    (∀ f ∈ fields, Text.Clear m f.1.name ∧ ¬ Occurs m (f.1.description.getD "")) →
    (∀ f ∈ fields, Clear m f.2) → (∀ t ∈ index, Clear m t) → Clear m (.shape fields index)
  | union {ts : List TypeExpr} : (∀ t ∈ ts, Clear m t) → Clear m (.union ts)
  | intersection {ts : List TypeExpr} : (∀ t ∈ ts, Clear m t) → Clear m (.intersection ts)
  | requiring {inner : TypeExpr} {keys : List String} : Clear m inner →
    (∀ k ∈ keys, Text.Clear m k) → Clear m (.requiring inner keys)

variable {m : String} (hm : m ∈ markers)
include hm

theorem not_occurs_parenthesized {needed : Bool} {text : String} (h : ¬ Occurs m text) :
    ¬ Occurs m (parenthesized needed text) := by
  cases needed with
  | false => exact h
  | true =>
    have hclose : Quiet m ")" := Text.quiet_given hm (by decide)
    exact Text.not_occurs_append (Text.not_occurs_after hm (by decide) rfl h) hclose

theorem quiet_renderField {f : Field} {type : String} (hname : Text.Clear m f.name)
    (hdescription : ¬ Occurs m (f.description.getD "")) (htype : ¬ Occurs m type) :
    Quiet m (renderField f type) := by
  have hindent : Quiet m "  " := Text.quiet_given hm (by decide)
  have hoptional : Quiet m (if f.required then "" else "?") :=
    .ite (fun _ => .empty m) fun _ => Text.quiet_given hm (by decide)
  have hcolon : Fence m ": " := Text.fence_given hm (by decide)
  have hsemicolon : Quiet m ";" := Text.quiet_given hm (by decide)
  have hbefore := ((hindent.append (Naming.quiet_docComment hm hdescription 2)).append
    (Naming.quiet_propertyKey hm hname)).append hoptional
  exact ((hcolon.of_quiet hbefore).append htype).append hsemicolon

theorem quiet_requiring {inner : String} {keys : List String} (hne : m ≠ "Require<")
    (hinner : ¬ Occurs m inner) (hkeys : ∀ k ∈ keys, Text.Clear m k) :
    Quiet m ("Require<" ++ inner ++ ", " ++ Text.joinWith " | " (keys.map Text.quote) ++ ">") := by
  have hopen : Fence m "Require<" := by
    have hothers : ∀ m ∈ markers.erase "Require<",
        Text.isFence m.toList "Require<".toList = true := by
      decide
    exact Text.fence_of_isFence (hothers m ((List.mem_erase_of_ne hne).mpr hm))
  have hcomma : Quiet m ", " := Text.quiet_given hm (by decide)
  have hbar : Quiet m " | " := Text.quiet_given hm (by decide)
  have hclose : Quiet m ">" := Text.quiet_given hm (by decide)
  have hquoted : ∀ x ∈ keys.map Text.quote, Quiet m x :=
    List.forall_mem_map.mpr fun k hk => Text.quiet_quote hm (hkeys k hk)
  exact (((hopen.append hinner).append hcomma).append (.joinWith hbar hquoted)).append hclose

/-- A marker in the text of an expression is that of a part that makes fields mandatory. -/
theorem Clear.not_occurs {t : TypeExpr} (h : Clear m t)
    (hrequires : m = "Require<" → ¬ t.Requires) :
    ¬ Occurs m t.render := by
  have hne := Text.marker_ne_empty hm
  induction h with
  | primitive hname => exact hname
  | named hname => exact hname
  | literals htokens =>
    rw [render]
    exact Text.not_occurs_joinWith hne (Text.fence_given hm (by decide)) htokens
  | array _ ih =>
    rw [render]
    have hitem := ih fun he hr => hrequires he (hr.mono fun _ => .item)
    exact Text.not_occurs_append (not_occurs_parenthesized hm hitem)
      (Text.quiet_given hm (by decide))
  | @tuple item length _ ih =>
    rw [render]
    have hplaces : ∀ x ∈ List.replicate length.toNat (parenthesized item.isComposite item.render),
        ¬ Occurs m x := by
      intro x hx
      obtain ⟨hlength, rfl⟩ := List.mem_replicate.mp hx
      refine not_occurs_parenthesized hm (ih fun he hr => hrequires he (hr.mono fun _ hr => ?_))
      exact hr.place (by omega)
    have hopen : Fence m "[" := Text.fence_given hm (by decide)
    have hclose : Quiet m "]" := Text.quiet_given hm (by decide)
    have hcomma : Fence m ", " := Text.fence_given hm (by decide)
    have hjoined := Text.not_occurs_joinWith hne hcomma hplaces
    exact ((hopen.append hjoined).append hclose).not_occurs hne
  | freeFormMap =>
    have hbraces : Quiet m "\x7b[key: string]: any\x7d" := Text.quiet_given hm (by decide)
    exact hbraces.not_occurs hne
  | @shape fields index hfields _ _ ihfields ihindex =>
    have hopen : Fence m "\x7b\n" := Text.fence_given hm (by decide)
    have hbreak : Quiet m "\n" := Text.quiet_given hm (by decide)
    have hclose : Quiet m "\n\x7d" := Text.quiet_given hm (by decide)
    have hlines : ∀ x ∈ renderFields fields ++ renderIndex index, Quiet m x := by
      rw [renderFields_eq_map]
      intro x hx
      rcases List.mem_append.mp hx with hx | hx
      · obtain ⟨f, hf, rfl⟩ := List.mem_map.mp hx
        have htype := ihfields f hf fun he hr => hrequires he (hr.mono fun _ => .field hf)
        exact quiet_renderField hm (hfields f hf).1 (hfields f hf).2 htype
      · cases index with
        | none => cases hx
        | some t =>
          have htype := ihindex t rfl fun he hr => hrequires he (hr.mono fun _ => .index)
          have hkey : Fence m "  [key: string]: " := Text.fence_given hm (by decide)
          have hsemicolon : Quiet m ";" := Text.quiet_given hm (by decide)
          rw [List.mem_singleton.mp hx]
          exact (hkey.append htype).append hsemicolon
    by_cases hempty : fields ≠ [] ∨ index ≠ none
    · rw [render_shape hempty]
      exact ((hopen.quiet.append (.joinWith hbreak hlines)).append hclose).not_occurs hne
    · simp only [ne_eq, not_or, not_not] at hempty
      have hbraces : Quiet m "\x7b\x7d" := Text.quiet_given hm (by decide)
      rw [hempty.1, hempty.2, render]
      exact hbraces.not_occurs hne
  | union _ ih =>
    rw [render, renderMembers_eq_map]
    refine Text.not_occurs_joinWith hne (Text.fence_given hm (by decide)) ?_
    refine List.forall_mem_map.mpr fun t ht => ih t ht fun he hr => ?_
    exact hrequires he (hr.mono fun _ => .member ht)
  | intersection _ ih =>
    rw [render, renderFactors_eq_map]
    refine Text.not_occurs_joinWith hne (Text.fence_given hm (by decide)) ?_
    refine List.forall_mem_map.mpr fun t ht =>
      not_occurs_parenthesized hm (ih t ht fun he hr => ?_)
    exact hrequires he (hr.mono fun _ => .factor ht)
  | requiring _ hkeys ih =>
    have hother : m ≠ "Require<" := fun he => hrequires he ⟨_, _, .self _⟩
    rw [render]
    exact (quiet_requiring hm hother (ih fun he => absurd he hother) hkeys).not_occurs hne

theorem not_occurs_literalToken {asText : Bool} {v : Value} (h : v.Clear m) :
    ¬ Occurs m (literalToken asText v) := by
  have hne := Text.marker_ne_empty hm
  have htext := Value.clear_text hm h
  unfold literalToken
  split
  · exact (Stopless.quiet hm (by decide)).not_occurs hne
  · split_ifs
    · exact (Text.quiet_quote hm htext).not_occurs hne
    · split
      · split_ifs
        · exact (Stopless.quiet hm (by decide)).not_occurs hne
        · exact (Stopless.quiet hm (by decide)).not_occurs hne
      · exact (Text.quiet_quote hm htext).not_occurs hne
      · exact htext.lacks

theorem clear_primitive {name : String} (h : Stopless name) : Clear m (.primitive name) :=
  .primitive ((h.quiet hm).not_occurs (Text.marker_ne_empty hm))

theorem clear_named {name : String} (h : Stopless name) : Clear m (.named name) :=
  .named ((h.quiet hm).not_occurs (Text.marker_ne_empty hm))

theorem clear_nullable {t : TypeExpr} (h : t.Clear m) : t.nullable.Clear m := by
  have hnull : Clear m null := clear_primitive hm (by decide)
  have hpair {u : TypeExpr} (hu : u.Clear m) : Clear m (.union [u, null]) :=
    .union (List.forall_mem_cons.mpr ⟨hu, List.forall_mem_singleton.mpr hnull⟩)
  unfold nullable
  split_ifs
  · exact h
  · split
    · split_ifs
      · exact h
      · exact hpair h
    · cases h with
      | union hts =>
        refine .union fun u hu => ?_
        rcases List.mem_append.mp hu with hu | hu
        · exact hts u hu
        · exact List.mem_singleton.mp hu ▸ hnull
    · exact hpair h

theorem clear_ofEnum {values : Value} {asText : Bool} {t : TypeExpr} (hvalues : values.Clear m)
    (h : ofEnum values asText = .ok t) : t.Clear m := by
  obtain ⟨items, hitems, rfl⟩ := Schema.ofEnum_ok h
  refine .literals (List.forall_mem_map.mpr fun v hv => not_occurs_literalToken hm ?_)
  exact hvalues.elements (Value.lasting_clear hm) hitems v hv

omit hm in
theorem clear_unionOf {ts : List TypeExpr} {t : TypeExpr} (hts : ∀ u ∈ ts, u.Clear m)
    (h : unionOf ts = some t) : t.Clear m := by
  have hdistinct : ∀ u ∈ distinct ts, u.Clear m := fun u hu => hts u (mem_distinct.mp hu)
  unfold unionOf at h
  split at h
  · cases h
  · rename_i u hu
    cases h
    exact hdistinct t (hu ▸ List.mem_singleton_self t)
  · cases h
    exact .union hdistinct

end TypeExpr

end ApiBindings
