import ApiBindings.Proofs.Schema.Following
import ApiBindings.Proofs.Schema.References

/-!
The order in which a schema is written. Main statement: the order of the keywords of a schema, and
of the schemas in it, does not decide on its type; the order of the properties is that of the
fields, and decides on nothing else.
-/

namespace ApiBindings.Schema

/-- The second type is the first with the fields of moved properties moved along, wherever a shape
in it is made of them. -/
def FieldsMoved (moves : Entries → Entries → Prop) (t u : TypeExpr) : Prop :=
  ∀ T, Accords False moves T → T t u

structure ReadsProperties (es : Entries) : Prop where
  noReference : reference? es = none
  inside : LooksInside es
  noComposition : isComposition es = false

def orNull (es : Entries) (t : TypeExpr) : TypeExpr :=
  if (es.get "nullable").isFilled then .nullable t else t

section Properties

variable {es gs : Entries} (hget : ∀ name, name ≠ "properties" → gs.get? name = es.get? name)
  (location : String)

theorem mappingType_of_looksInside (h : LooksInside es) : mappingType es location = do
    return orNull es (← objectType es location) := by
  obtain ⟨kind, hkind, h⟩ := h
  rw [mappingType, hkind]
  obtain rfl | rfl | ⟨rfl, hopen⟩ := h
  · rfl
  · rfl
  · have hclosed : ((es.get "enum").isFilled && !isComposition es) = false := by
      rcases hopen with h | h <;> simp [h]
    change (if (es.get "enum").isFilled && !isComposition es then _ else _) = _
    rw [hclosed]
    rfl

include hget

theorem get_of_get? (name : String) (hname : name ≠ "properties") : gs.get name = es.get name := by
  rw [Entries.get, hget name hname, Entries.get]

theorem reference?_of_get? : reference? gs = reference? es := by
  rw [reference?, reference?, get_of_get? hget "$ref" (by decide)]

theorem isComposition_of_get? : isComposition gs = isComposition es := by
  rw [isComposition, isComposition, get_of_get? hget "allOf" (by decide),
    get_of_get? hget "anyOf" (by decide), get_of_get? hget "oneOf" (by decide)]

theorem orNull_of_get? : orNull gs = orNull es := by
  funext t
  rw [orNull, orNull, get_of_get? hget "nullable" (by decide)]

theorem looksInside_of_get? (h : LooksInside es) : LooksInside gs := by
  rw [LooksInside, get_of_get? hget "type" (by decide), get_of_get? hget "enum" (by decide),
    isComposition_of_get? hget]
  exact h

theorem readsProperties_of_get? (h : ReadsProperties es) : ReadsProperties gs where
  noReference := reference?_of_get? hget ▸ h.noReference
  inside := looksInside_of_get? hget h.inside
  noComposition := isComposition_of_get? hget ▸ h.noComposition

theorem indexType_of_get? : indexType gs location = indexType es location := by
  rw [indexType_eq, indexType_eq, hget _ (by decide)]

theorem arrayType_of_get? : arrayType gs location = arrayType es location := by
  rw [arrayType_eq, arrayType_eq, hget _ (by decide), get_of_get? hget "minItems" (by decide),
    get_of_get? hget "maxItems" (by decide)]

theorem objectType_of_get? (h : reference? es = none → isComposition es = true) :
    objectType gs location = objectType es location := by
  have hmembers (key : String) (hkey : key ∈ compositionKeys) :
      memberTypes gs key location = memberTypes es key location := by
    have hne : key ≠ "properties" := by
      rintro rfl
      simp at hkey
    rw [memberTypes_eq, memberTypes_eq, hget key hne]
  rw [objectType, objectType, reference?_of_get? hget]
  cases href : reference? es with
  | some ref => rfl
  | none =>
    have hcomp := h href
    simp only [isComposition, Bool.or_eq_true] at hcomp
    simp only [get_of_get? hget "allOf" (by decide),
      get_of_get? hget "anyOf" (by decide), get_of_get? hget "oneOf" (by decide),
      get_of_get? hget "required" (by decide), hmembers "allOf" (by simp),
      hmembers "anyOf" (by simp), hmembers "oneOf" (by simp)]
    split_ifs with hall hany hone
    · rfl
    · rfl
    · rfl
    all_goals exact absurd hcomp (by simp [hall, hany, hone])

theorem mappingType_of_get?
    (hobject : LooksInside es → objectType gs location = objectType es location) :
    mappingType gs location = mappingType es location := by
  by_cases hinside : LooksInside es
  · rw [mappingType_of_looksInside _ hinside,
      mappingType_of_looksInside _ (looksInside_of_get? hget hinside), hobject hinside,
      orNull_of_get? hget]
  · rw [mappingType, mappingType]
    simp only [enumOr, isComposition_of_get? hget, arrayType_of_get? hget,
      get_of_get? hget "type" (by decide), get_of_get? hget "enum" (by decide),
      get_of_get? hget "nullable" (by decide)]
    cases hkind : Kind.of (es.get "type") with
    | error e => rfl
    | ok kind =>
      cases kind with
      | object => exact absurd ⟨_, hkind, .inl rfl⟩ hinside
      | other => exact absurd ⟨_, hkind, .inr (.inl rfl)⟩ hinside
      | absent =>
        have hclosed : ((es.get "enum").isFilled && !isComposition es) = true := by
          by_contra hopen
          refine hinside ⟨_, hkind, .inr (.inr ⟨rfl, ?_⟩)⟩
          simpa [Decidable.imp_iff_not_or] using hopen
        rw [hclosed]
        rfl
      | _ => rfl

end Properties

theorem typeOf_of_not_readsProperties {label : Option Nat} {es gs : Entries}
    (hget : ∀ name, name ≠ "properties" → gs.get? name = es.get? name)
    (h : ¬ ReadsProperties es) (location : String) :
    typeOf (.map label gs) location = typeOf (.map label es) location := by
  rw [typeOf, typeOf, reference?_of_get? hget]
  cases href : reference? es with
  | some ref => rfl
  | none =>
    refine mappingType_of_get? hget location fun hinside =>
      objectType_of_get? hget location fun _ => ?_
    by_contra hcomp
    exact h ⟨href, hinside, by simpa using hcomp⟩

theorem typeOf_of_readsProperties {label inner : Option Nat} {es ps : Entries}
    (h : ReadsProperties es) (hps : es.get? "properties" = some (.map inner ps))
    (location : String) :
    typeOf (.map label es) location = do
      let fields ← fieldTypes ps (((es.get "required").filled?).getD (.list []))
        (location ++ "/properties/")
      let index ← indexType es location
      return orNull es (.shape fields index) := by
  have hcomp := h.noComposition
  simp only [isComposition, Bool.or_eq_false_iff] at hcomp
  rw [typeOf_mapping h.noReference, mappingType_of_looksInside location h.inside,
    objectType_eq location (by rw [Entries.get, hps]; rfl : _ = false), h.noReference]
  simp only [hcomp, propertyTypes_eq, hps, Bool.and_false, Bool.false_and, Bool.not_false,
    Bool.true_or, if_true, bind_assoc, pure_bind, Bool.false_eq_true, if_false]

theorem typeOf_of_rearranged {v w : Value} (hv : v.IsTree)
    (hw : Rearranged (fun _ _ => False) v w) : typeOf w = typeOf v := by
  have hT : Accords True (fun _ _ => False) Eq :=
    { TypeExpr.congruence_eq with
      moved := fun hmoved => by cases hmoved; contradiction
      perm := fun h => h.elim
      strict := fun _ _ _ => id }
  funext location
  have houtcome := (typesFollow hT v hv w hw).2 location
  cases h : typeOf v location with
  | ok t =>
    rw [h] at houtcome
    obtain ⟨u, hu, rfl⟩ := houtcome
    exact hu
  | error e =>
    rw [h] at houtcome
    exact houtcome trivial

theorem typeOf_of_moved {moves : Entries → Entries → Prop} {v w : Value} {location : String}
    {t : TypeExpr} (hv : v.IsTree) (hmoves : ∀ ps qs, moves ps qs → ps.Perm qs)
    (hw : Rearranged moves v w) (h : typeOf v location = .ok t) :
    ∃ u, typeOf w location = .ok u ∧ FieldsMoved moves t u := by
  have hfollows {T : TypeExpr → TypeExpr → Prop} (hT : Accords False moves T) :
      ∃ u, typeOf w location = .ok u ∧ T t u := by
    have houtcome := (typesFollow hT v hv w hw).2 location
    rw [h] at houtcome
    exact houtcome
  have hanything : Accords False moves fun _ _ => True := by
    constructor
    · constructor <;> intros <;> trivial
    · intros
      trivial
    · exact hmoves _ _
    · exact False.elim
  obtain ⟨u, hu, -⟩ := hfollows hanything
  refine ⟨u, hu, fun T hT => ?_⟩
  obtain ⟨u', hu', htu⟩ := hfollows hT
  rw [hu] at hu'
  cases hu'
  exact htu

section Permuted

variable {label inner : Option Nat} {es ps qs : Entries} {location : String} {t : TypeExpr}
  (hps : es.get? "properties" = some (.map inner ps)) (hperm : ps.Perm qs)
  (h : typeOf (.map label es) location = .ok t)
include hps hperm h

theorem typeOf_of_perm (hreads : ReadsProperties es) :
    ∃ field index, t = orNull es (.shape (ps.map field) index) ∧
      typeOf (.map label (es.put (.str "properties") (.map inner qs))) location =
        .ok (orNull es (.shape (qs.map field) index)) := by
  have hget (name : String) (hname : name ≠ "properties") :
      (es.put (.str "properties") (.map inner qs)).get? name = es.get? name :=
    Entries.get?_put_of_ne hname es _
  rw [typeOf_of_readsProperties hreads hps] at h
  obtain ⟨fields, hfields, h⟩ := bind_eq_ok.mp h
  obtain ⟨index, hindex, h⟩ := bind_eq_ok.mp h
  cases pure_eq_ok.mp h
  obtain ⟨field, rfl, hmoved⟩ := fieldTypes_of_perm hperm hfields
  refine ⟨field, index, rfl, ?_⟩
  have hqs := Entries.get?_put_self es "properties" (.map inner qs)
  rw [typeOf_of_readsProperties (readsProperties_of_get? hget hreads) hqs,
    get_of_get? hget "required" (by decide), hmoved, indexType_of_get? hget, hindex,
    orNull_of_get? hget]
  rfl

end Permuted

/-- The order of keywords does not decide on a type. That of properties is the order of the fields
that are made of them, also inside of other schemas, and decides on nothing else. -/
theorem typeOf_reordered {v : Value} (hv : v.IsTree) :
    (∀ w, Rearranged (fun _ _ => False) v w → typeOf w = typeOf v) ∧
    (∀ moves w location t, (∀ ps qs : Entries, moves ps qs → ps.Perm qs) → Rearranged moves v w →
      typeOf v location = .ok t → ∃ u, typeOf w location = .ok u ∧ FieldsMoved moves t u) ∧
    ∀ (label inner : Option Nat) (es ps qs : Entries) (location : String) (t : TypeExpr),
      v = .map label es → es.get? "properties" = some (.map inner ps) → ps.Perm qs →
      typeOf v location = .ok t →
      (ReadsProperties es → ∃ field index, t = orNull es (.shape (ps.map field) index) ∧
        typeOf (.map label (es.put (.str "properties") (.map inner qs))) location =
          .ok (orNull es (.shape (qs.map field) index))) ∧
      (¬ ReadsProperties es →
        typeOf (.map label (es.put (.str "properties") (.map inner qs))) location = .ok t) := by
  refine ⟨fun w hw => typeOf_of_rearranged hv hw,
    fun moves w location t hmoves hw h => typeOf_of_moved hv hmoves hw h,
    fun label inner es ps qs location t hes hps hperm h => ?_⟩
  subst hes
  refine ⟨typeOf_of_perm hps hperm h, fun hreads => ?_⟩
  rw [typeOf_of_not_readsProperties (fun name hname => Entries.get?_put_of_ne hname es _) hreads]
  exact h

section Examples

def idAndTag (order : Entries → Entries) : Entries :=
  [(.str "id", .ofEntries [(.str "type", .str "integer")]),
    (.str "tag", .ofEntries (order [(.str "nullable", .bool true), (.str "type", .str "string")]))]

def taggedRecord : Entries :=
  [(.str "required", .list [.str "id"]), (.str "properties", .ofEntries (idAndTag id))]

/-- The record with the keywords backwards, in the record and in one of its fields. -/
def backwardsRecord : Entries :=
  [(.str "properties", .ofEntries (idAndTag List.reverse)), (.str "required", .list [.str "id"])]

theorem readsProperties_taggedRecord : ReadsProperties taggedRecord where
  noReference := rfl
  inside := ⟨.absent, rfl, by decide⟩
  noComposition := rfl

theorem typeOf_taggedRecord : ∃ t, typeOf (.ofEntries taggedRecord) "#" = .ok t := by
  have hid (location : String) :
      typeOf (.map none [(.str "type", .str "integer")]) location = .ok .number := by
    rw [typeOf_mapping rfl, mappingType]
    rfl
  have htag (location : String) : typeOf (.map none [(.str "nullable", .bool true),
      (.str "type", .str "string")]) location = .ok (.nullable .string) := by
    rw [typeOf_mapping rfl, mappingType]
    rfl
  rw [Value.ofEntries, typeOf_of_readsProperties readsProperties_taggedRecord rfl, indexType_eq,
    idAndTag, Value.ofEntries, Value.ofEntries, fieldTypes, fieldTypes, fieldTypes, hid, id, htag]
  exact ⟨_, rfl⟩

theorem typeOf_reordered_taggedRecord : (Value.ofEntries taggedRecord).IsTree ∧
    typeOf (.ofEntries backwardsRecord) = typeOf (.ofEntries taggedRecord) ∧
    ∃ field index,
      typeOf (.ofEntries taggedRecord) "#" = .ok (.shape ((idAndTag id).map field) index) ∧
      typeOf (.ofEntries
          (taggedRecord.put (.str "properties") (.ofEntries (idAndTag id).reverse))) "#" =
        .ok (.shape ((idAndTag id).reverse.map field) index) := by
  have htree : (Value.ofEntries taggedRecord).IsTree := by
    simp only [Value.IsTree, taggedRecord, idAndTag, Value.ofEntries, id, Value.Throughout,
      Value.EntriesThroughout, Value.ItemsThroughout]
    decide
  have htag : Rearranged (fun _ _ => False)
      (.map none [(.str "nullable", .bool true), (.str "type", .str "string")])
      (.map none [(.str "type", .str "string"), (.str "nullable", .bool true)]) :=
    .node (List.forall₂_same.mpr fun e _ => .same e) (.swap ..)
  have hbackwards :
      Rearranged (fun _ _ => False) (.ofEntries taggedRecord) (.ofEntries backwardsRecord) :=
    .node (.cons (.same _) (.cons (.properties (.cons (.schema (.refl _))
      (.cons (.schema htag) .nil))) .nil)) (.swap ..)
  obtain ⟨hkeywords, -, hproperties⟩ := typeOf_reordered htree
  obtain ⟨t, ht⟩ := typeOf_taggedRecord
  obtain ⟨field, index, rfl, hturned⟩ := (hproperties none none taggedRecord _ (idAndTag id).reverse
    "#" t rfl rfl (List.reverse_perm _).symm ht).1 readsProperties_taggedRecord
  exact ⟨htree, hkeywords _ hbackwards, field, index, ht, hturned⟩

end Examples

end ApiBindings.Schema
