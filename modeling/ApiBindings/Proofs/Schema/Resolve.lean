import ApiBindings.Proofs.Schema.Part
import ApiBindings.Proofs.Success
import Mathlib.Tactic.SplitIfs

/-!
What the reader of schemas has done when it succeeds, keyword by keyword. Later proofs go by
these lemmas and do not open its definitions.
-/

namespace ApiBindings.Schema

def Resolve (schemas : List Value) (types : List TypeExpr) : Prop :=
  List.Forall₂ (fun s t => ∃ location, typeOf s location = .ok t) schemas types

theorem typeOf_scalar (s : Scalar) (location : String) :
    typeOf (.scalar s) location = .ok .any := by
  rw [typeOf]
  intro _ _ h
  cases h

theorem referencedType_of_ok {ref : Value} {t : TypeExpr} {place : Option String}
    (h : referencedType ref place = .ok t) (other : Option String) :
    referencedType ref other = .ok t := by
  unfold referencedType referencedName at h ⊢
  obtain ⟨text, htext, h⟩ := bind_eq_ok.mp h
  obtain ⟨name, hname, h⟩ := bind_eq_ok.mp h
  refine bind_eq_ok.mpr ⟨text, htext, bind_eq_ok.mpr ⟨name, ?_, h⟩⟩
  cases htarget : target? text collections with
  | none =>
    rw [htarget] at hname
    cases hname
  | some found =>
    rw [htarget] at hname
    exact hname

theorem typeOf_reference {label : Option Nat} {es : Entries} {ref : Value}
    (h : reference? es = some ref) (location : String) :
    typeOf (.map label es) location = referencedType ref (some location) := by
  rw [typeOf, h]

theorem typeOf_mapping {label : Option Nat} {es : Entries} (h : reference? es = none)
    (location : String) : typeOf (.map label es) location = mappingType es location := by
  rw [typeOf, h]

theorem ofEnum_ok {values : Value} {asText : Bool} {t : TypeExpr}
    (h : TypeExpr.ofEnum values asText = .ok t) :
    ∃ items, values.elements = .ok items ∧
      t = .literals (items.map (TypeExpr.literalToken asText)) := by
  obtain ⟨items, hitems, h⟩ := bind_eq_ok.mp h
  exact ⟨items, hitems, (pure_eq_ok.mp h).symm⟩

theorem enumOr_ok {es : Entries} {asText : Bool} {t u : TypeExpr}
    (h : enumOr es asText t = .ok u) :
    (es.get "enum").isFilled = true ∧ TypeExpr.ofEnum (es.get "enum") asText = .ok u ∨
      (es.get "enum").isFilled = false ∧ u = t := by
  unfold enumOr at h
  split_ifs at h with hfilled
  · exact .inl ⟨hfilled, h⟩
  · exact .inr ⟨by simpa using hfilled, (Except.ok.inj h).symm⟩

theorem joined_cases (join : List TypeExpr → TypeExpr) (ts : List TypeExpr) :
    (∃ t, ts = [t] ∧ joined join ts = t) ∨ (∀ t, ts ≠ [t]) ∧ joined join ts = join ts := by
  unfold joined
  split
  · exact .inl ⟨_, rfl, rfl⟩
  · rename_i hmany
    exact .inr ⟨hmany, rfl⟩

theorem withRequired_ok {required : Value} {t u : TypeExpr}
    (h : withRequired t required = .ok u) :
    required.isFilled = false ∧ u = t ∨
      required.isFilled = true ∧ ∃ elements keys, required.elements = .ok elements ∧
        List.Forall₂ (fun v key => Value.textField v = .ok key) elements keys ∧
        u = .requiring t keys := by
  unfold withRequired at h
  split_ifs at h with hfilled
  · obtain ⟨elements, helements, h⟩ := bind_eq_ok.mp h
    obtain ⟨keys, hkeys, h⟩ := bind_eq_ok.mp h
    exact .inr ⟨hfilled, elements, keys, helements, mapM_eq_ok.mp hkeys, (pure_eq_ok.mp h).symm⟩
  · exact .inl ⟨by simpa using hfilled, (Except.ok.inj h).symm⟩

theorem itemTypes_ok {items : List Value} {location : String} {index : Nat}
    {types : List TypeExpr} (h : itemTypes items location index = .ok types) :
    Resolve items types := by
  induction items generalizing index types with
  | nil =>
    rw [itemTypes] at h
    cases h
    exact .nil
  | cons item rest ih =>
    rw [itemTypes] at h
    obtain ⟨t, ht, h⟩ := bind_eq_ok.mp h
    obtain ⟨ts, hts, h⟩ := bind_eq_ok.mp h
    cases pure_eq_ok.mp h
    exact .cons ⟨_, ht⟩ (ih hts)

theorem memberTypes_ok {es : Entries} {key location : String} {items : List Value}
    {types : List TypeExpr} (hk : es.get? key = some (.list items))
    (h : memberTypes es key location = .ok types) : Resolve items types := by
  rw [memberTypes] at h
  split at h
  · simp_all
  · rename_i items' hitems
    rw [hk] at hitems
    cases hitems
    exact itemTypes_ok h
  · simp_all

/-- Only the elements of a list are read; the parts of other collections stand for any type. -/
theorem memberTypes_cases {es : Entries} {key location : String} {types : List TypeExpr}
    (h : memberTypes es key location = .ok types) :
    (∃ members, es.get? key = some (.list members) ∧ Resolve members types) ∨
      (∀ members, es.get? key ≠ some (.list members)) ∧ ∀ t ∈ types, t = .any := by
  by_cases hlist : ∃ members, es.get? key = some (.list members)
  · obtain ⟨members, hmembers⟩ := hlist
    exact .inl ⟨members, hmembers, memberTypes_ok hmembers h⟩
  · refine .inr ⟨fun members hmembers => hlist ⟨members, hmembers⟩, fun t ht => ?_⟩
    rw [memberTypes] at h
    split at h
    · cases h
      cases ht
    · rename_i members hmembers
      exact absurd ⟨members, hmembers⟩ hlist
    · obtain ⟨elements, -, h⟩ := bind_eq_ok.mp h
      cases h
      obtain ⟨-, -, rfl⟩ := List.mem_map.mp ht
      rfl

theorem fieldTypes_ok {properties : List (Scalar × Value)} {required : Value} {location : String}
    {fields : List (Field × TypeExpr)}
    (h : fieldTypes properties required location = .ok fields) :
    List.Forall₂ (fun p f => p.1 = .str f.1.name ∧ required.holds p.1 = .ok f.1.required ∧
      ∃ location, typeOf p.2 location = .ok f.2) properties fields := by
  induction properties generalizing fields with
  | nil =>
    rw [fieldTypes] at h
    cases h
    exact .nil
  | cons p rest ih =>
    obtain ⟨key, schema⟩ := p
    rw [fieldTypes] at h
    obtain ⟨t, ht, h⟩ := bind_eq_ok.mp h
    obtain ⟨isRequired, hr, h⟩ := bind_eq_ok.mp h
    obtain ⟨name, hn, h⟩ := bind_eq_ok.mp h
    obtain ⟨description, hd, h⟩ := bind_eq_ok.mp h
    obtain ⟨fields', hf, h⟩ := bind_eq_ok.mp h
    cases pure_eq_ok.mp h
    have hkey : key = .str name := by
      cases key <;> simp_all [Value.textField]
    exact .cons ⟨hkey, hr, _, ht⟩ (ih hf)

theorem propertyTypes_ok {es properties : Entries} {label : Option Nat} {location : String}
    {fields : List (Field × TypeExpr)} (hp : es.get? "properties" = some (.map label properties))
    (h : propertyTypes es location = .ok fields) :
    fieldTypes properties (((es.get "required").filled?).getD (.list []))
      (location ++ "/properties/") = .ok fields := by
  rw [propertyTypes] at h
  split at h
  · simp_all
  · rename_i properties' hp'
    rw [hp] at hp'
    cases hp'
    exact h
  · simp_all

theorem propertyTypes_none {es : Entries} {location : String} {fields : List (Field × TypeExpr)}
    (hp : es.get? "properties" = none) (h : propertyTypes es location = .ok fields) :
    fields = [] := by
  rw [propertyTypes] at h
  split at h <;> simp_all

theorem indexType_ok {es : Entries} {location : String} {index : Option TypeExpr}
    (h : indexType es location = .ok index) :
    (index = none ∧ isGiven (es.get "additionalProperties") = false) ∨
      ∃ s t, es.get? "additionalProperties" = some s ∧ index = some t ∧
        ∃ location, typeOf s location = .ok t := by
  rw [indexType] at h
  split at h
  · rename_i hs
    cases h
    exact .inl ⟨rfl, by simp [Entries.get, hs, isGiven]⟩
  · rename_i hs
    cases h
    exact .inr ⟨_, _, hs, rfl, location, typeOf_scalar _ _⟩
  · rename_i s _ hs
    split at h
    · obtain ⟨t, ht, h⟩ := bind_eq_ok.mp h
      cases pure_eq_ok.mp h
      exact .inr ⟨s, t, hs, rfl, _, ht⟩
    · cases h
      exact .inl ⟨rfl, by simp_all [Entries.get]⟩

theorem arrayType_ok {es : Entries} {location : String} {t : TypeExpr}
    (h : arrayType es location = .ok t) :
    ∃ s item, es.get? "items" = some s ∧ (∃ location, typeOf s location = .ok item) ∧
      (t = .array item ∨ ∃ n, t = .tuple item n ∧ (es.get "minItems").integerField = .ok n ∧
        (es.get "minItems").equals (es.get "maxItems") = true) := by
  rw [arrayType] at h
  split at h
  · cases h
  · cases h
  · rename_i s _ hs
    obtain ⟨item, hitem, h⟩ := bind_eq_ok.mp h
    refine ⟨s, item, hs, ⟨_, hitem⟩, ?_⟩
    dsimp only at h
    split at h
    · rename_i hc
      obtain ⟨n, hn, h⟩ := bind_eq_ok.mp h
      cases pure_eq_ok.mp h
      simp only [Bool.and_eq_true] at hc
      exact .inr ⟨n, rfl, hn, hc.2⟩
    · cases pure_eq_ok.mp h
      exact .inl rfl

/-- The ways in which a mapping without reference is put together from its members or fields. -/
inductive Assemble (es : Entries) (location : String) : TypeExpr → Prop
  | allOf {members : List TypeExpr} {t : TypeExpr} : composition? es = some "allOf" →
    memberTypes es "allOf" location = .ok members →
    withRequired (joined .intersection members) (es.get "required") = .ok t →
    Assemble es location t
  | anyOf {members : List TypeExpr} : composition? es = some "anyOf" →
    memberTypes es "anyOf" location = .ok members → Assemble es location (joined .union members)
  | oneOf {members : List TypeExpr} {t : TypeExpr} : composition? es = some "oneOf" →
    memberTypes es "oneOf" location = .ok members →
    withRequired (joined .union members) (es.get "required") = .ok t → Assemble es location t
  | empty : isComposition es = false → es.get "type" = .null → es.get "properties" = .null →
    isGiven (es.get "additionalProperties") = false → Assemble es location .emptyShape
  | freeForm : isComposition es = false → (es.get "type").equals (.str "object") = true →
    Assemble es location .freeFormMap
  | shape {fields : List (Field × TypeExpr)} {index : Option TypeExpr} :
    isComposition es = false →
    es.get "properties" ≠ .null ∨ isGiven (es.get "additionalProperties") = true →
    propertyTypes es location = .ok fields →
    indexType es location = .ok index → Assemble es location (.shape fields index)
  | unconstrained : isComposition es = false → Assemble es location .any

theorem matches_null {v : Value} : (v matches .scalar .null) = true ↔ v = .null := by
  cases v with
  | scalar s => cases s <;> simp
  | _ => simp

theorem objectType_ok {es : Entries} {location : String} {t : TypeExpr}
    (href : reference? es = none) (h : objectType es location = .ok t) :
    Assemble es location t := by
  rw [objectType, href] at h
  dsimp only at h
  split_ifs at h with hall hany hone hempty hfree hshape hobject
  · obtain ⟨members, hm, h⟩ := bind_eq_ok.mp h
    exact .allOf (by simp [composition?, compositionKeys, hall]) hm h
  · obtain ⟨members, hm, h⟩ := bind_eq_ok.mp h
    cases pure_eq_ok.mp h
    exact .anyOf (by simp [composition?, compositionKeys, hall, hany]) hm
  · obtain ⟨members, hm, h⟩ := bind_eq_ok.mp h
    exact .oneOf (by simp [composition?, compositionKeys, hall, hany, hone]) hm h
  -- from here on nothing is composed
  all_goals have hcomp : isComposition es = false := by simp [isComposition, hall, hany, hone]
  · cases h
    simp only [Bool.and_eq_true, Bool.not_eq_true'] at hempty
    exact .empty hcomp (matches_null.mp hempty.1.1) (matches_null.mp hempty.1.2) hempty.2
  · cases h
    simp only [Bool.and_eq_true] at hfree
    exact .freeForm hcomp hfree.1.1
  · obtain ⟨fields, hf, h⟩ := bind_eq_ok.mp h
    obtain ⟨index, hi, h⟩ := bind_eq_ok.mp h
    cases pure_eq_ok.mp h
    refine .shape hcomp ?_ hf hi
    rw [Bool.or_eq_true, Bool.not_eq_true'] at hshape
    refine hshape.imp_left fun hbare hnull => ?_
    rw [hnull] at hbare
    cases hbare
  · cases h
    exact .freeForm hcomp hobject
  · cases h
    exact .unconstrained hcomp

inductive Dispatch (es : Entries) (location : String) : Kind → TypeExpr → Prop
  | numeric {t : TypeExpr} : enumOr es false .number = .ok t → Dispatch es location .numeric t
  | boolean {t : TypeExpr} : enumOr es false .boolean = .ok t → Dispatch es location .boolean t
  | textual {t : TypeExpr} : enumOr es true .string = .ok t → Dispatch es location .textual t
  | array {t : TypeExpr} : arrayType es location = .ok t → Dispatch es location .array t
  | enumeration {t : TypeExpr} : (es.get "enum").isFilled = true → isComposition es = false →
    TypeExpr.ofEnum (es.get "enum") false = .ok t → Dispatch es location .absent t
  | untyped {t : TypeExpr} : (es.get "enum").isFilled = false ∨ isComposition es = true →
    objectType es location = .ok t → Dispatch es location .absent t
  | object {kind : Kind} {t : TypeExpr} : kind = .object ∨ kind = .other →
    objectType es location = .ok t → Dispatch es location kind t

theorem mappingType_ok {es : Entries} {location : String} {t : TypeExpr}
    (h : mappingType es location = .ok t) :
    ∃ kind, Kind.of (es.get "type") = .ok kind ∧ ((kind = .null ∧ t = .null) ∨
      ∃ u, Dispatch es location kind u ∧
        t = if (es.get "nullable").isFilled then u.nullable else u) := by
  rw [mappingType] at h
  obtain ⟨kind, hkind, h⟩ := bind_eq_ok.mp h
  refine ⟨kind, hkind, ?_⟩
  cases kind with
  | null =>
    cases h
    exact .inl ⟨rfl, rfl⟩
  | numeric =>
    obtain ⟨u, hu, h⟩ := bind_eq_ok.mp h
    exact .inr ⟨u, .numeric hu, (pure_eq_ok.mp h).symm⟩
  | boolean =>
    obtain ⟨u, hu, h⟩ := bind_eq_ok.mp h
    exact .inr ⟨u, .boolean hu, (pure_eq_ok.mp h).symm⟩
  | textual =>
    obtain ⟨u, hu, h⟩ := bind_eq_ok.mp h
    exact .inr ⟨u, .textual hu, (pure_eq_ok.mp h).symm⟩
  | array =>
    obtain ⟨u, hu, h⟩ := bind_eq_ok.mp h
    exact .inr ⟨u, .array hu, (pure_eq_ok.mp h).symm⟩
  | object =>
    obtain ⟨u, hu, h⟩ := bind_eq_ok.mp h
    exact .inr ⟨u, .object (by simp) hu, (pure_eq_ok.mp h).symm⟩
  | other =>
    obtain ⟨u, hu, h⟩ := bind_eq_ok.mp h
    exact .inr ⟨u, .object (by simp) hu, (pure_eq_ok.mp h).symm⟩
  | absent =>
    dsimp only at h
    split at h
    · rename_i hc
      simp only [Bool.and_eq_true, Bool.not_eq_true'] at hc
      obtain ⟨u, hu, h⟩ := bind_eq_ok.mp h
      exact .inr ⟨u, .enumeration hc.1 hc.2 hu, (pure_eq_ok.mp h).symm⟩
    · rename_i hc
      obtain ⟨u, hu, h⟩ := bind_eq_ok.mp h
      exact .inr ⟨u, .untyped (by simpa [Decidable.imp_iff_not_or] using hc) hu,
        (pure_eq_ok.mp h).symm⟩

end ApiBindings.Schema
