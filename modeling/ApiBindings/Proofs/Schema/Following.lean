import ApiBindings.Proofs.Schema.Locations
import ApiBindings.Proofs.Schema.Rearranged

/-!
Types of rearranged schemas. Main statement: a relation between types that is kept by the ways in
which types are built, and by a move of fields, relates the types of a schema and of what it is
rearranged to.
-/

namespace ApiBindings

/-- The second computation has a related result if the first has one. Under `strict` it fails as the
first does. -/
def Outcome {α : Type} (strict : Prop) (R : α → α → Prop) (x y : Except Fault α) : Prop :=
  match x with
  | .ok a => ∃ b, y = .ok b ∧ R a b
  | .error e => strict → y = .error e

namespace Outcome

variable {α β : Type} {strict : Prop} {R : α → α → Prop} {S : β → β → Prop}

theorem ok {a b : α} (h : R a b) : Outcome strict R (.ok a) (.ok b) := ⟨b, rfl, h⟩

theorem refl (hR : ∀ a, R a a) (x : Except Fault α) : Outcome strict R x x := by
  cases x with
  | ok a => exact ok (hR a)
  | error e => exact fun _ => rfl

theorem mono {R' : α → α → Prop} {x y : Except Fault α} (h : Outcome strict R x y)
    (hR : ∀ a b, R a b → R' a b) : Outcome strict R' x y := by
  cases x with
  | ok a =>
    obtain ⟨b, hb, hab⟩ := h
    exact ⟨b, hb, hR a b hab⟩
  | error e => exact h

theorem bind {x y : Except Fault α} {f g : α → Except Fault β} (h : Outcome strict R x y)
    (hfg : ∀ a b, R a b → Outcome strict S (f a) (g b)) :
    Outcome strict S (x >>= f) (y >>= g) := by
  cases x with
  | ok a =>
    obtain ⟨b, rfl, hab⟩ := h
    exact hfg a b hab
  | error e => exact fun hstrict => by rw [h hstrict]; rfl

theorem bind_same {x : Except Fault α} {f g : α → Except Fault β}
    (hfg : ∀ a, Outcome strict S (f a) (g a)) : Outcome strict S (x >>= f) (x >>= g) :=
  bind (refl (R := Eq) (fun _ => rfl) x) fun a _ h => h ▸ hfg a

end Outcome

structure TypeExpr.Congruence (T : TypeExpr → TypeExpr → Prop) : Prop where
  refl : ∀ t, T t t
  array : ∀ {t u}, T t u → T (.array t) (.array u)
  tuple : ∀ {t u} n, T t u → T (.tuple t n) (.tuple u n)
  nullable : ∀ {t u}, T t u → T t.nullable u.nullable
  union : ∀ {ts us}, List.Forall₂ T ts us → T (.union ts) (.union us)
  intersection : ∀ {ts us}, List.Forall₂ T ts us → T (.intersection ts) (.intersection us)
  requiring : ∀ {t u} keys, T t u → T (.requiring t keys) (.requiring u keys)
  shape : ∀ {fs gs i j}, List.Forall₂ (fun f g => f.1 = g.1 ∧ T f.2 g.2) fs gs → Option.Rel T i j →
    T (.shape fs i) (.shape gs j)

theorem eq_of_forall₂ {α : Type} {R : α → α → Prop} {as bs : List α} (h : List.Forall₂ R as bs)
    (hR : ∀ a b, R a b → a = b) : as = bs := by
  simpa only [List.map_id] using map_eq_of_forall₂ (f := id) (g := id) h hR

theorem TypeExpr.congruence_eq : Congruence Eq where
  refl _ := rfl
  array h := h ▸ rfl
  tuple _ h := h ▸ rfl
  nullable h := h ▸ rfl
  union h := congrArg _ (eq_of_forall₂ h fun _ _ => id)
  intersection h := congrArg _ (eq_of_forall₂ h fun _ _ => id)
  requiring _ h := h ▸ rfl
  shape hfields hindex := by
    rw [eq_of_forall₂ hfields fun _ _ h => Prod.ext h.1 h.2]
    cases hindex with
    | none => rfl
    | some h => rw [h]

namespace Schema

theorem joined_related {T : TypeExpr → TypeExpr → Prop}
    {join : List TypeExpr → TypeExpr}
    (hjoin : ∀ {ts us}, List.Forall₂ T ts us → T (join ts) (join us))
    {ts us : List TypeExpr} (h : List.Forall₂ T ts us) :
    T (joined join ts) (joined join us) := by
  cases h with
  | nil => exact hjoin .nil
  | cons hfirst hrest =>
    cases hrest with
    | nil => exact hfirst
    | cons hsecond hrest => exact hjoin (.cons hfirst (.cons hsecond hrest))

inductive Moved (moves : Entries → Entries → Prop) :
    List (Field × TypeExpr) → List (Field × TypeExpr) → Prop
  | mk {ps qs : Entries} (field : Scalar × Value → Field × TypeExpr) : moves ps qs →
    Moved moves (ps.map field) (qs.map field)

/-- The relation is kept by the ways in which types are built, and by a move of fields. Where the
outcome is strict nothing is moved. -/
structure Accords (strict : Prop) (moves : Entries → Entries → Prop)
    (T : TypeExpr → TypeExpr → Prop) : Prop extends TypeExpr.Congruence T where
  moved : ∀ {fs gs i j}, Moved moves fs gs → Option.Rel T i j → T (.shape fs i) (.shape gs j)
  perm : ∀ {ps qs}, moves ps qs → ps.Perm qs
  strict : strict → ∀ ps qs, ¬ moves ps qs

section

variable {strict : Prop} {moves : Entries → Entries → Prop} {T : TypeExpr → TypeExpr → Prop}
  (hT : Accords strict moves T)

def TypesFollow (strict : Prop) (moves : Entries → Entries → Prop) (T : TypeExpr → TypeExpr → Prop)
    (v : Value) : Prop :=
  ∀ w, Rearranged moves v w →
    LooksAlike v w ∧ ∀ location, Outcome strict T (typeOf v location) (typeOf w location)

theorem itemTypes_outcome {vs ws : List Value} (hitems : List.Forall₂ (Rearranged moves) vs ws)
    (h : ∀ s ∈ vs, TypesFollow strict moves T s) (location : String) (index : Nat) :
    Outcome strict (List.Forall₂ T) (itemTypes vs location index)
      (itemTypes ws location index) := by
  induction hitems generalizing index with
  | nil =>
    rw [itemTypes]
    exact .ok .nil
  | cons hitem _ ih =>
    rw [List.forall_mem_cons] at h
    rw [itemTypes, itemTypes]
    refine .bind ((h.1 _ hitem).2 _) fun t u htu => ?_
    exact .bind (ih h.2 _) fun ts us hts => .ok (.cons htu hts)

theorem fieldTypes_outcome {ps qs : Entries} (hproperties : List.Forall₂ (Property moves) ps qs)
    (h : ∀ p ∈ ps, TypesFollow strict moves T p.2) (required : Value) (location : String) :
    Outcome strict (List.Forall₂ fun f g => f.1 = g.1 ∧ T f.2 g.2)
      (fieldTypes ps required location) (fieldTypes qs required location) := by
  induction hproperties with
  | nil =>
    rw [fieldTypes]
    exact .ok .nil
  | cons hproperty _ ih =>
    obtain ⟨hschema⟩ := hproperty
    rw [List.forall_mem_cons] at h
    obtain ⟨hlooks, htypes⟩ := h.1 _ hschema
    rw [fieldTypes, fieldTypes, hlooks.description]
    refine .bind (htypes _) fun t u htu => ?_
    refine .bind_same fun isRequired => .bind_same fun name => .bind_same fun description => ?_
    exact .bind (ih h.2) fun fs gs hfs => .ok (.cons ⟨rfl, htu⟩ hfs)

def fieldType (required : Value) (location : String) (p : Scalar × Value) :
    Except Fault (Field × TypeExpr) := do
  let t ← typeOf p.2 (location ++ p.1.text)
  let isRequired ← required.holds p.1
  let name ← Value.textField (.scalar p.1)
  let description ← (inlineDescription p.2).optionalTextField
  return (⟨name, isRequired, description⟩, t)

theorem fieldTypes_eq_mapM (properties : Entries) (required : Value) (location : String) :
    fieldTypes properties required location = properties.mapM (fieldType required location) := by
  induction properties with
  | nil => rw [fieldTypes]; rfl
  | cons p rest ih =>
    obtain ⟨key, schema⟩ := p
    rw [fieldTypes, List.mapM_cons, ih]
    simp only [fieldType, bind_assoc, pure_bind]

theorem fieldTypes_of_perm {ps qs : Entries} (hperm : ps.Perm qs) {required : Value}
    {location : String} {fields : List (Field × TypeExpr)}
    (h : fieldTypes ps required location = .ok fields) :
    ∃ field, fields = ps.map field ∧ fieldTypes qs required location = .ok (qs.map field) := by
  let field (p : Scalar × Value) : Field × TypeExpr :=
    ((fieldType required location p).toOption).getD default
  have hfield {p f} (hp : fieldType required location p = .ok f) : field p = f := by
    simp only [field, hp]
    rfl
  rw [fieldTypes_eq_mapM] at h ⊢
  have hall := mapM_eq_ok.mp h
  have heq : ps.map field = fields := by
    simpa only [List.map_id] using map_eq_of_forall₂ (g := id) hall fun _ _ => hfield
  refine ⟨field, heq.symm, mapM_eq_ok.mpr ?_⟩
  rw [List.forall₂_map_right_iff, List.forall₂_same]
  intro p hp
  obtain ⟨f, -, hf⟩ := exists_right_of_forall₂ hall (hperm.mem_iff.mpr hp)
  rw [hfield hf, hf]

/-- The definition, with the question whether there are properties answered beforehand. -/
theorem objectType_eq {es : Entries} {isBare : Bool} (location : String)
    (hbare : (es.get "properties" matches .scalar .null) = isBare) : objectType es location =
    match reference? es with
    | some ref => referencedType ref (some location)
    | none =>
      if (es.get "allOf").isFilled then do
        let members ← memberTypes es "allOf" location
        withRequired (joined .intersection members) (es.get "required")
      else if (es.get "anyOf").isFilled then do
        return joined .union (← memberTypes es "anyOf" location)
      else if (es.get "oneOf").isFilled then do
        let members ← memberTypes es "oneOf" location
        withRequired (joined .union members) (es.get "required")
      else
        let additional := es.get "additionalProperties"
        let isAbsent := es.get "type" matches .scalar .null
        let isObject := (es.get "type").equals (.str "object")
        if isAbsent && isBare && !isGiven additional then .ok .emptyShape
        else if isObject && isBare && (!isGiven additional || admitsAnything additional) then
          .ok .freeFormMap
        else if !isBare || isGiven additional then do
          let fields ← propertyTypes es location
          return .shape fields (← indexType es location)
        else .ok (if isObject then .freeFormMap else .any) := by
  subst hbare
  unfold objectType
  rfl

section Parts

variable {es gs : Entries} (halike : KeywordsAlike moves es gs)
  (h : ∀ s, Part es s → TypesFollow strict moves T s)
include hT halike h

theorem memberTypes_outcome {key : String} (hkey : key ∈ compositionKeys) (location : String) :
    Outcome strict (List.Forall₂ T) (memberTypes es key location)
      (memberTypes gs key location) := by
  have hsame (ts : List TypeExpr) : List.Forall₂ T ts ts :=
    List.forall₂_same.mpr fun t _ => hT.refl t
  rw [memberTypes_eq, memberTypes_eq]
  obtain ⟨hv, hw⟩ | ⟨v, w, hv, hw, hkeyword⟩ := halike.get?_cases key
  · rw [hv, hw]
    exact .refl hsame _
  · rw [hw, hv]
    obtain rfl | ⟨vs, ws, rfl, rfl, hmembers⟩ := hkeyword.members_cases hkey
    · exact .refl hsame _
    · exact itemTypes_outcome hmembers (fun s hs => h s (.member hkey hv hs)) _ _

theorem propertyTypes_outcome (location : String) :
    Outcome strict (fun fs gs => ∀ i j, Option.Rel T i j → T (.shape fs i) (.shape gs j))
      (propertyTypes es location) (propertyTypes gs location) := by
  have hsame (fs : List (Field × TypeExpr)) :
      List.Forall₂ (fun f g => f.1 = g.1 ∧ T f.2 g.2) fs fs :=
    List.forall₂_same.mpr fun f _ => ⟨rfl, hT.refl f.2⟩
  rw [propertyTypes_eq, propertyTypes_eq, halike.get_eq "required" (by decide)]
  obtain ⟨hv, hw⟩ | ⟨v, w, hv, hw, hkeyword⟩ := halike.get?_cases "properties"
  · rw [hv, hw]
    exact .refl (fun fs _ _ hindex => hT.shape (hsame fs) hindex) _
  · rw [hw, hv]
    obtain rfl | ⟨label, ps, qs, rfl, rfl, hproperties | hmoves⟩ := hkeyword.properties_cases
    · exact .refl (fun fs _ _ hindex => hT.shape (hsame fs) hindex) _
    · refine (fieldTypes_outcome hproperties (fun p hp => h p.2 (.property hv hp)) _ _).mono ?_
      exact fun fs gs hfields _ _ => hT.shape hfields
    · dsimp only
      cases hfields : fieldTypes ps (((es.get "required").filled?).getD (.list []))
          (location ++ "/properties/") with
      | ok fields =>
        obtain ⟨field, rfl, hqs⟩ := fieldTypes_of_perm (hT.perm hmoves) hfields
        rw [hqs]
        exact .ok fun i j => hT.moved (.mk field hmoves)
      | error e => exact fun hstrict => (hT.strict hstrict ps qs hmoves).elim

theorem indexType_outcome (location : String) :
    Outcome strict (Option.Rel T) (indexType es location) (indexType gs location) := by
  have hsame (index : Option TypeExpr) : Option.Rel T index index := by
    cases index with
    | none => exact .none
    | some t => exact .some (hT.refl t)
  obtain ⟨hv, hw⟩ | ⟨v, w, hv, hw, hkeyword⟩ := halike.get?_cases "additionalProperties"
  · rw [indexType_eq, indexType_eq, hv, hw]
    exact .refl hsame _
  · obtain ⟨hlooks, htypes⟩ := h v (.additional hv) w (hkeyword.rearranged (.inr rfl))
    rw [indexType_some hv, indexType_some hw, hlooks.given]
    split_ifs
    · exact .bind (htypes _) fun t u htu => .ok (.some htu)
    · exact .refl hsame _

theorem arrayType_outcome (location : String) :
    Outcome strict T (arrayType es location) (arrayType gs location) := by
  obtain ⟨hv, hw⟩ | ⟨v, w, hv, hw, hkeyword⟩ := halike.get?_cases "items"
  · rw [arrayType_eq, arrayType_eq, hv, hw]
    exact .refl hT.refl _
  · obtain ⟨hlooks, htypes⟩ := h v (.items hv) w (hkeyword.rearranged (.inl rfl))
    by_cases hnull : v = .null
    · rw [arrayType_eq, arrayType_eq, hv, hw, hlooks.null.mpr hnull, hnull]
      exact .refl hT.refl _
    · rw [arrayType_some hv hnull, arrayType_some hw fun hn => hnull (hlooks.null.mp hn),
        halike.get_eq "minItems" (by decide),
        halike.get_eq "maxItems" (by decide)]
      refine .bind (htypes _) fun t u htu => ?_
      dsimp only
      split_ifs
      · refine .bind (.refl (fun _ => rfl) _) fun n _ hn => ?_
        cases hn
        exact .ok (hT.tuple n htu)
      · exact .ok (hT.array htu)

theorem objectType_outcome (location : String) :
    Outcome strict T (objectType es location) (objectType gs location) := by
  have hmembers {key : String} (hkey : key ∈ compositionKeys) :=
    memberTypes_outcome hT halike h hkey location
  have hrequired {t u : TypeExpr} (htu : T t u) :
      Outcome strict T (withRequired t (es.get "required"))
        (withRequired u (es.get "required")) := by
    rw [withRequired, withRequired]
    split_ifs
    · exact .bind_same fun keys => .bind_same fun names => .ok (hT.requiring names htu)
    · exact .ok htu
  have hadditional :
      LooksAlike (es.get "additionalProperties") (gs.get "additionalProperties") := by
    obtain ⟨hv, hw⟩ | ⟨v, w, hv, hw, hkeyword⟩ := halike.get?_cases "additionalProperties"
    · rw [Entries.get, Entries.get, hv, hw]
      exact .refl _
    · rw [Entries.get, Entries.get, hv, hw]
      exact (h v (.additional hv) w (hkeyword.rearranged (.inr rfl))).1
  -- the match on the properties is the same on both sides, so it is named before the split
  obtain ⟨isBare, hbare⟩ :
      ∃ isBare, (es.get "properties" matches .scalar .null) = isBare := ⟨_, rfl⟩
  rw [objectType_eq location hbare, objectType_eq location (halike.isNull_eq.trans hbare),
    halike.reference?_eq]
  cases reference? es with
  | some ref => exact .refl hT.refl _
  | none =>
    simp only [halike.isFilled_eq "allOf" (by simp),
      halike.isFilled_eq "anyOf" (by simp), halike.isFilled_eq "oneOf" (by simp),
      halike.get_eq "type" (by decide), halike.get_eq "required" (by decide),
      hadditional.given, hadditional.anything]
    split_ifs
    · exact .bind (hmembers (by simp)) fun ts us hts =>
        hrequired (joined_related hT.intersection hts)
    · exact .bind (hmembers (by simp)) fun ts us hts => .ok (joined_related hT.union hts)
    · exact .bind (hmembers (by simp)) fun ts us hts => hrequired (joined_related hT.union hts)
    · exact .refl hT.refl _
    · exact .refl hT.refl _
    · refine .bind (propertyTypes_outcome hT halike h location) fun fs gs hfields => ?_
      exact .bind (indexType_outcome hT halike h location) fun i j hindex =>
        .ok (hfields i j hindex)
    · exact .refl hT.refl _
    · exact .refl hT.refl _

theorem mappingType_outcome (location : String) :
    Outcome strict T (mappingType es location) (mappingType gs location) := by
  have hnullable {x y : Except Fault TypeExpr} (hxy : Outcome strict T x y) :
      Outcome strict T (do
        let t ← x
        return if (es.get "nullable").isFilled then .nullable t else t) (do
        let t ← y
        return if (es.get "nullable").isFilled then .nullable t else t) := by
    refine .bind hxy fun t u htu => ?_
    split_ifs
    · exact .ok (hT.nullable htu)
    · exact .ok htu
  have hobject := hnullable (objectType_outcome hT halike h location)
  rw [mappingType, mappingType]
  simp only [enumOr, halike.get_eq "type" (by decide),
    halike.get_eq "enum" (by decide), halike.get_eq "nullable" (by decide),
    halike.isComposition_eq]
  refine .bind_same fun kind => ?_
  cases kind with
  | null => exact .ok (hT.refl _)
  | numeric => exact hnullable (.refl hT.refl _)
  | boolean => exact hnullable (.refl hT.refl _)
  | textual => exact hnullable (.refl hT.refl _)
  | array => exact hnullable (arrayType_outcome hT halike h location)
  | object => exact hobject
  | other => exact hobject
  | absent =>
    dsimp only
    split
    · exact hnullable (.refl hT.refl _)
    · exact hobject

end Parts

include hT in
theorem typesFollow (v : Value) (hv : v.IsTree) : TypesFollow strict moves T v := by
  intro w hw
  refine ⟨hw.looksAlike hv, fun location => ?_⟩
  match v with
  | .map label es =>
    obtain rfl | ⟨_, _, gs, heq, rfl, halike, -⟩ := hw.cases_of_isTree hv
    · exact .refl hT.refl _
    · cases heq
      have hparts (s : Value) (hs : Part es s) : TypesFollow strict moves T s :=
        have := hs.sizeOf_lt
        typesFollow s (hs.throughout (Value.throughout_map.mp hv))
      rw [typeOf, typeOf, halike.reference?_eq]
      cases reference? es with
      | some ref => exact .refl hT.refl _
      | none => exact mappingType_outcome hT halike hparts location
  | .scalar _ | .list _ | .set _ | .pair .. =>
    cases hw
    exact .refl hT.refl _
termination_by sizeOf v

end

end Schema

end ApiBindings
