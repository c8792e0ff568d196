import ApiBindings.Proofs.Schema.Nulls

/-!
Null that is repeated in a type. Main statement: if no enumeration and no composition of a schema
has null twice, its type repeats null exactly where `nullable` is added to alternatives that admit
null already.
-/

namespace ApiBindings.Schema

inductive Reaches : Value → Entries → Prop
  | here {label : Option Nat} {es : Entries} : reference? es = none → Reaches (.map label es) es
  | inside {label : Option Nat} {es fs : Entries} {s : Value} : reference? es = none → Uses es s →
    Reaches s fs → Reaches (.map label es) fs

/-- The mapping enumerates null twice, or two of its members admit it. -/
inductive ListsNullTwice (es : Entries) : Prop
  | enumeration {values : List Value} : ReadsEnum es → (es.get "enum").elements = .ok values →
    ¬ AtMostOne (· = .null) values → ListsNullTwice es
  | members {key : String} {members : List Value} : LooksInside es → composition? es = some key →
    key ≠ "allOf" → es.get? key = some (.list members) → ¬ AtMostOne AdmitsNull members →
    ListsNullTwice es

/-- The keyword `nullable` adds null to members of which one admits it. A single member is spared
if it absorbs null. -/
def AddsNullAgain (es : Entries) : Prop :=
  (es.get "nullable").isFilled = true ∧ ∃ members, Alternates es members ∧
    (∃ s ∈ members, AdmitsNull s) ∧ ∀ s, members = [s] → ¬ AbsorbsNull s

def RepeatsNull (s : Value) : Prop := ∃ es, Reaches s es ∧ (ListsNullTwice es ∨ AddsNullAgain es)

theorem repeatsNull_map {label : Option Nat} {es : Entries} (href : reference? es = none) :
    RepeatsNull (.map label es) ↔
      (ListsNullTwice es ∨ AddsNullAgain es) ∨ ∃ s, Uses es s ∧ RepeatsNull s := by
  constructor
  · rintro ⟨fs, ⟨-⟩ | ⟨-, huses, hreaches⟩, h⟩
    · exact .inl h
    · exact .inr ⟨_, huses, fs, hreaches, h⟩
  · rintro (h | ⟨s, huses, fs, hreaches, h⟩)
    · exact ⟨es, .here href, h⟩
    · exact ⟨fs, .inside href huses hreaches, h⟩

theorem RepeatsNull.exists_map {s : Value} (h : RepeatsNull s) :
    ∃ label e es, s = .map label (e :: es) := by
  obtain ⟨fs, hreaches, hrepeats⟩ := h
  -- an empty mapping has no keyword that repeats null, and none that uses another schema
  cases hreaches with
  | here href =>
    cases fs with
    | cons e es => exact ⟨_, e, es, rfl⟩
    | nil =>
      rcases hrepeats with (⟨⟨hfilled, -⟩, -⟩ | ⟨-, hkey, -⟩) | ⟨hfilled, -⟩
      · cases hfilled
      · cases hkey
      · cases hfilled
  | @inside label es _ s href huses _ =>
    cases es with
    | cons e es => exact ⟨label, e, es, rfl⟩
    | nil => rcases huses with ⟨-, h⟩ | ⟨-, -, h, -⟩ | ⟨-, -, h, -⟩ | ⟨-, -, h⟩ <;> cases h

theorem RepeatsNull.isGiven {s : Value} (h : RepeatsNull s) : isGiven s = true := by
  obtain ⟨label, e, es, rfl⟩ := h.exists_map
  rfl

theorem RepeatsNull.admitsAnything {s : Value} (h : RepeatsNull s) : admitsAnything s = false := by
  obtain ⟨label, e, es, rfl⟩ := h.exists_map
  rfl

section Joined

variable {t u : TypeExpr} {ts : List TypeExpr}

theorem doublesNull_joined_union : (joined .union ts).DoublesNull ↔
    ¬ AtMostOne TypeExpr.AdmitsNull ts ∨ ∃ t ∈ ts, t.DoublesNull := by
  rcases joined_cases .union ts with ⟨t, rfl, h⟩ | ⟨-, h⟩
  · simp [h, AtMostOne]
  · rw [h, TypeExpr.doublesNull_union]

theorem doublesNull_joined_intersection :
    (joined .intersection ts).DoublesNull ↔ ∃ t ∈ ts, t.DoublesNull := by
  rcases joined_cases .intersection ts with ⟨t, rfl, h⟩ | ⟨-, h⟩
  · simp [h]
  · rw [h, TypeExpr.doublesNull_of_not_isAlternatives rfl, TypeExpr.parts]

theorem doublesNull_withRequired {required : Value} (h : withRequired t required = .ok u) :
    u.DoublesNull ↔ t.DoublesNull := by
  rcases withRequired_ok h with ⟨-, rfl⟩ | ⟨-, -, keys, -, -, rfl⟩
  · rfl
  · rw [TypeExpr.doublesNull_of_not_isAlternatives rfl]
    simp [TypeExpr.parts]

end Joined

section Mapping

variable {es : Entries} {location key : String} {s : Value} {t : TypeExpr}

theorem LooksInside.uses_iff (h : LooksInside es) (hkey : composition? es = some key) :
    Uses es s ↔ ∃ members, es.get? key = some (.list members) ∧ s ∈ members := by
  constructor
  · rintro (⟨harray, -⟩ | ⟨-, hother, hmembers, hs⟩ | ⟨-, hnone, -⟩ | ⟨-, hnone, -⟩)
    · exact absurd harray h.ne_array
    · rw [hkey] at hother
      cases hother
      exact ⟨_, hmembers, hs⟩
    · simp [hkey] at hnone
    · simp [hkey] at hnone
  · rintro ⟨members, hmembers, hs⟩
    exact .member h hkey hmembers hs

theorem LooksInside.listsNullTwice_iff (h : LooksInside es) (hkey : composition? es = some key) :
    ListsNullTwice es ↔ key ≠ "allOf" ∧
      ∃ members, es.get? key = some (.list members) ∧ ¬ AtMostOne AdmitsNull members := by
  constructor
  · rintro (⟨hreads, -⟩ | ⟨-, hother, hall, hmembers, htwice⟩)
    · exact absurd hreads h.not_readsEnum
    · rw [hkey] at hother
      cases hother
      exact ⟨hall, _, hmembers, htwice⟩
  · rintro ⟨hall, members, hmembers, htwice⟩
    exact .members h hkey hall hmembers htwice

theorem not_listsNullTwice (henum : ¬ ReadsEnum es)
    (hcomposed : LooksInside es → composition? es = none) : ¬ ListsNullTwice es := by
  rintro (⟨hreads, -⟩ | ⟨hinside, hkey, -⟩)
  · exact henum hreads
  · simp [hcomposed hinside] at hkey

theorem not_uses (hinside : ¬ LooksInside es) (harray : Kind.of (es.get "type") ≠ .ok .array) :
    ¬ Uses es s := by
  rintro (⟨h, -⟩ | ⟨h, -⟩ | ⟨h, -⟩ | ⟨h, -⟩)
  · exact harray h
  all_goals exact hinside h

theorem uses_of_array (harray : Kind.of (es.get "type") = .ok .array) :
    Uses es s ↔ es.get? "items" = some s := by
  constructor
  · rintro (⟨-, h⟩ | ⟨h, -⟩ | ⟨h, -⟩ | ⟨h, -⟩)
    · exact h
    all_goals exact absurd harray h.ne_array
  · exact .items harray

theorem objectType_cases (href : reference? es = none) (hnone : composition? es = none)
    (h : objectType es location = .ok t) :
    (∃ fields index, propertyTypes es location = .ok fields ∧ indexType es location = .ok index ∧
      t = .shape fields index) ∨
    es.get "properties" = .null ∧ (isGiven (es.get "additionalProperties") = false ∨
      admitsAnything (es.get "additionalProperties") = true) ∧ t.isAlternatives = false ∧
      t.parts = [] := by
  have hcomposed := composition?_eq_none.mp hnone
  simp only [isComposition, Bool.or_eq_false_iff] at hcomposed
  simp only [objectType, href, hcomposed, Bool.false_eq_true, if_false] at h
  split_ifs at h with hempty hfree hshape hobject
  · cases h
    simp only [Bool.and_eq_true, Bool.not_eq_true'] at hempty
    exact .inr ⟨matches_null.mp hempty.1.2, .inl hempty.2, rfl, rfl⟩
  · cases h
    simp only [Bool.and_eq_true, Bool.or_eq_true, Bool.not_eq_true'] at hfree
    exact .inr ⟨matches_null.mp hfree.1.2, hfree.2, rfl, rfl⟩
  · obtain ⟨fields, hfields, h⟩ := bind_eq_ok.mp h
    obtain ⟨index, hindex, h⟩ := bind_eq_ok.mp h
    exact .inl ⟨fields, index, hfields, hindex, (pure_eq_ok.mp h).symm⟩
  all_goals
    cases h
    simp only [Bool.or_eq_true, Bool.not_eq_true', not_or, Bool.not_eq_false, Bool.not_eq_true]
      at hshape
    exact .inr ⟨matches_null.mp hshape.1, .inl hshape.2, rfl, rfl⟩

def RepeatsInside (es : Entries) (t : TypeExpr) : Prop :=
  t.DoublesNull ↔ ListsNullTwice es ∨ ∃ s, Uses es s ∧ RepeatsNull s

section Parts

variable (hparts : ∀ s, Uses es s → ∀ location t, typeOf s location = .ok t →
  (t.DoublesNull ↔ RepeatsNull s))
include hparts

theorem members_repeatNull {types : List TypeExpr} (hinside : LooksInside es)
    (hkey : composition? es = some key) (hmembers : memberTypes es key location = .ok types) :
    (∃ t ∈ types, t.DoublesNull) ↔ ∃ s, Uses es s ∧ RepeatsNull s := by
  simp only [hinside.uses_iff hkey]
  rcases memberTypes_cases hmembers with ⟨members, hlist, hresolve⟩ | ⟨hno, hany⟩
  · have hall (s : Value) (hs : s ∈ members) := hparts s (.member hinside hkey hlist hs)
    have hboth := (List.forall₂_and_left members types).mpr ⟨hall, hresolve⟩
    rw [← exists_iff_of_forall₂ (hboth.imp fun s t ⟨hs, place, ht⟩ => (hs place t ht).symm)]
    simp [hlist]
  · refine iff_of_false ?_ ?_
    · rintro ⟨t, ht, hdouble⟩
      rw [hany t ht] at hdouble
      exact TypeExpr.not_doublesNull_primitive hdouble
    · rintro ⟨s, ⟨members, hlist, -⟩, -⟩
      exact hno members hlist

theorem union_repeatsInside {types : List TypeExpr} (hinside : LooksInside es)
    (hkey : composition? es = some key) (hall : key ≠ "allOf")
    (hmembers : memberTypes es key location = .ok types) :
    RepeatsInside es (joined .union types) := by
  have htwice : ¬ AtMostOne TypeExpr.AdmitsNull types ↔ ListsNullTwice es := by
    rw [hinside.listsNullTwice_iff hkey, and_iff_right hall]
    rcases memberTypes_cases hmembers with ⟨members, hlist, hresolve⟩ | ⟨hno, hany⟩
    · have hagree : List.Forall₂ (fun s t => AdmitsNull s ↔ t.AdmitsNull) members types :=
        hresolve.imp fun s t ⟨place, ht⟩ => (typeOf_agreesOnNull s ht).admits.symm
      rw [← AtMostOne.iff_of_forall₂ hagree]
      simp [hlist]
    · refine iff_of_false (not_not.mpr ?_) fun ⟨members, hlist, _⟩ => hno members hlist
      refine List.pairwise_of_forall_mem_list fun t ht u hu => ?_
      rw [hany t ht, TypeExpr.any, TypeExpr.admitsNull_primitive]
      simp
  rw [RepeatsInside, doublesNull_joined_union, htwice,
    members_repeatNull hparts hinside hkey hmembers]

theorem intersection_repeatsInside {types : List TypeExpr} (hinside : LooksInside es)
    (hkey : composition? es = some "allOf")
    (hmembers : memberTypes es "allOf" location = .ok types) :
    RepeatsInside es (joined .intersection types) := by
  have hno : ¬ ListsNullTwice es := fun h => ((hinside.listsNullTwice_iff hkey).mp h).1 rfl
  rw [RepeatsInside, doublesNull_joined_intersection, or_iff_right hno,
    members_repeatNull hparts hinside hkey hmembers]

theorem shape_repeatsInside {fields : List (Field × TypeExpr)} {index : Option TypeExpr}
    (hinside : LooksInside es) (hnone : composition? es = none)
    (hfields : propertyTypes es location = .ok fields)
    (hindex : indexType es location = .ok index) :
    RepeatsInside es (.shape fields index) := by
  have hno := not_listsNullTwice hinside.not_readsEnum fun _ => hnone
  rw [RepeatsInside, or_iff_right hno, TypeExpr.doublesNull_of_not_isAlternatives rfl]
  constructor
  · rintro ⟨u, hu, hdouble⟩
    rcases List.mem_append.mp hu with hu | hu
    · obtain ⟨f, hf, rfl⟩ := List.mem_map.mp hu
      obtain ⟨label, properties, k, s, hp, hs, place, ht⟩ := propertyTypes_mem hfields hf
      have huses : Uses es s := .property hinside hnone hp hs
      exact ⟨s, huses, (hparts s huses place _ ht).mp hdouble⟩
    · obtain ⟨rfl, -⟩ | ⟨s, t, hs, rfl, place, ht⟩ := indexType_ok hindex
      · cases hu
      · cases List.mem_singleton.mp hu
        have huses : Uses es s := .additional hinside hnone hs
        exact ⟨s, huses, (hparts s huses place _ ht).mp hdouble⟩
  · rintro ⟨s, huses, hrepeats⟩
    have hall := hparts s huses
    cases huses with
    | items harray => exact absurd harray hinside.ne_array
    | member _ hkey => simp [hnone] at hkey
    | property _ _ hp hs =>
      obtain ⟨f, hf, -, -, place, ht⟩ :=
        exists_right_of_forall₂ (fieldTypes_ok (propertyTypes_ok hp hfields)) hs
      exact ⟨f.2, List.mem_append_left _ (List.mem_map_of_mem hf), (hall place _ ht).mpr hrepeats⟩
    | additional _ _ hs =>
      obtain ⟨-, hgiven⟩ | ⟨s', t, hs', rfl, place, ht⟩ := indexType_ok hindex
      · simp [Entries.get, hs, hrepeats.isGiven] at hgiven
      · rw [hs] at hs'
        cases hs'
        exact ⟨t, List.mem_append_right _ (List.mem_singleton_self t),
          (hall place t ht).mpr hrepeats⟩

theorem objectType_repeatsInside (hinside : LooksInside es) (href : reference? es = none)
    (h : objectType es location = .ok t) : RepeatsInside es t := by
  cases hkey : composition? es with
  | none =>
    rcases objectType_cases href hkey h with
      ⟨fields, index, hfields, hindex, rfl⟩ | ⟨hbare, hanything, hplain, hno⟩
    · exact shape_repeatsInside hparts hinside hkey hfields hindex
    · have htwice := not_listsNullTwice hinside.not_readsEnum fun _ => hkey
      rw [RepeatsInside, TypeExpr.doublesNull_of_not_isAlternatives hplain, hno,
        or_iff_right htwice]
      refine iff_of_false (by simp) ?_
      rintro ⟨s, huses, hrepeats⟩
      cases huses with
      | items harray => exact hinside.ne_array harray
      | member _ hother => simp [hkey] at hother
      | property _ _ hp => simp [Entries.get, hp] at hbare
      | additional _ _ hs =>
        -- what repeats null is a condition, so the mapping would have been a shape
        simp [Entries.get, hs, hrepeats.isGiven, hrepeats.admitsAnything] at hanything
  | some key =>
    cases objectType_ok href h with
    | allOf hall hmembers ht =>
      rw [RepeatsInside, doublesNull_withRequired ht]
      exact intersection_repeatsInside hparts hinside hall hmembers
    | anyOf hany hmembers =>
      exact union_repeatsInside hparts hinside hany (by decide) hmembers
    | oneOf hone hmembers ht =>
      rw [RepeatsInside, doublesNull_withRequired ht]
      exact union_repeatsInside hparts hinside hone (by decide) hmembers
    | empty hfalse | freeForm hfalse | shape hfalse | unconstrained hfalse =>
      simp [composition?_eq_none.mpr hfalse] at hkey

theorem Plain.repeatsInside (h : Plain es location t) (href : reference? es = none) :
    RepeatsInside es t := by
  cases h with
  | enumeration hreads ht =>
    obtain ⟨items, hitems, rfl⟩ := ofEnum_ok ht
    have hinside : ¬ LooksInside es := fun h => h.not_readsEnum hreads
    rw [RepeatsInside, TypeExpr.doublesNull_literals, AtMostOne.map_iff]
    simp only [TypeExpr.literalToken_eq_null]
    constructor
    · exact fun h => .inl (.enumeration hreads hitems h)
    · rintro ((⟨-, hvalues, htwice⟩ | ⟨h, -⟩) | ⟨s, huses, -⟩)
      · rw [hitems] at hvalues
        cases hvalues
        exact htwice
      · exact absurd h hinside
      · exact absurd huses (not_uses hinside hreads.ne_array)
  | primitive _ hreads hinside harray =>
    have hno := not_listsNullTwice hreads fun h => absurd h hinside
    rw [RepeatsInside, or_iff_right hno]
    refine iff_of_false TypeExpr.not_doublesNull_primitive ?_
    rintro ⟨s, huses, -⟩
    exact not_uses hinside harray huses
  | array harray ht =>
    have hno : ¬ ListsNullTwice es :=
      not_listsNullTwice (fun h => h.ne_array harray) fun h => absurd harray h.ne_array
    obtain ⟨s, item, hs, ⟨place, hitem⟩, ht⟩ := arrayType_ok ht
    have hitem : (∃ s, Uses es s ∧ RepeatsNull s) ↔ item.DoublesNull := by
      rw [hparts s (.items harray hs) place item hitem]
      simp [uses_of_array harray, hs]
    rw [RepeatsInside, or_iff_right hno, hitem]
    rcases ht with rfl | ⟨n, rfl, -⟩
    all_goals
      rw [TypeExpr.doublesNull_of_not_isAlternatives rfl]
      simp [TypeExpr.parts]
  | inside hinside ht => exact objectType_repeatsInside hparts hinside href ht

end Parts

theorem Plain.addsNullAgain_iff (h : Plain es location t) (href : reference? es = none) :
    AddsNullAgain es ↔
      (es.get "nullable").isFilled = true ∧ t.AdmitsNull ∧ ¬ t.AbsorbsNull := by
  have hagree (s : Value) (_ : Uses es s) (place : String) (u : TypeExpr)
      (hu : typeOf s place = .ok u) : AgreesOnNull s u :=
    typeOf_agreesOnNull s hu
  rw [h.admitsNull_iff href hagree, h.absorbsNull_iff href hagree]
  constructor
  · rintro ⟨hnullable, members, halternates, hadmits, hspared⟩
    refine ⟨hnullable, .inr ⟨members, halternates, hadmits⟩, ?_⟩
    rintro (henum | ⟨s, hs, habsorbs⟩)
    · exact halternates.not_readsEnum henum.1
    · exact hspared s (halternates.unique hs) habsorbs
  · rintro ⟨hnullable, henum | ⟨members, halternates, hadmits⟩, hnot⟩
    · exact absurd (.inl henum) hnot
    · refine ⟨hnullable, members, halternates, hadmits, fun s hs habsorbs => hnot ?_⟩
      exact .inr ⟨s, hs ▸ halternates, habsorbs⟩

theorem mappingType_doublesNull {label : Option Nat} (h : mappingType es location = .ok t)
    (href : reference? es = none) (hparts : ∀ s, Uses es s → ∀ location t,
      typeOf s location = .ok t → (t.DoublesNull ↔ RepeatsNull s)) :
    t.DoublesNull ↔ RepeatsNull (.map label es) := by
  rw [repeatsNull_map href]
  rcases mappingType_plain h with ⟨hkind, rfl⟩ | ⟨-, u, hu, rfl⟩
  · have hinside : ¬ LooksInside es := fun h => absurd (h.kind_mem hkind) (by decide)
    have hno : ¬ ListsNullTwice es :=
      not_listsNullTwice (fun h => absurd (h.kind_mem hkind) (by decide)) fun h => absurd h hinside
    refine iff_of_false TypeExpr.not_doublesNull_primitive ?_
    rintro ((h | ⟨-, _, h, -⟩) | ⟨s, huses, -⟩)
    · exact hno h
    · exact hinside h.1
    · exact not_uses hinside (by simp [hkind]) huses
  · have hagain := hu.addsNullAgain_iff href
    have hrepeats := hu.repeatsInside hparts href
    rw [RepeatsInside] at hrepeats
    rw [or_right_comm, ← hrepeats, hagain]
    split_ifs with hnullable
    · simp [TypeExpr.doublesNull_nullable, hnullable]
    · simp [hnullable]

/-- Null is repeated in the type of a schema by the mappings that are read for it. -/
theorem typeOf_doublesNull (s : Value) {location : String} {t : TypeExpr}
    (h : typeOf s location = .ok t) : t.DoublesNull ↔ RepeatsNull s := by
  rcases typeOf_cases h with ⟨label, es, hs, href, h, hsmaller⟩ | ⟨hno, hplain, hparts, -⟩
  · rw [hs]
    exact mappingType_doublesNull h href fun part hpart place t ht =>
      have := hsmaller part hpart
      typeOf_doublesNull part ht
  · rw [TypeExpr.doublesNull_of_not_isAlternatives hplain, hparts]
    refine iff_of_false (by simp) ?_
    rintro ⟨fs, ⟨href⟩ | ⟨href, -⟩, -⟩ <;> exact hno _ _ href rfl
termination_by sizeOf s

end Mapping

structure ListsNullOnce (es : Entries) : Prop where
  enumeration : ∀ values, (es.get "enum").elements = .ok values → AtMostOne (· = .null) values
  members : ∀ key ∈ ["anyOf", "oneOf"], ∀ members, es.get? key = some (.list members) →
    AtMostOne AdmitsNull members

theorem ListsNullOnce.not_listsNullTwice {es : Entries} (h : ListsNullOnce es) :
    ¬ ListsNullTwice es := by
  rintro (⟨-, hvalues, htwice⟩ | ⟨-, hkey, hall, hmembers, htwice⟩)
  · exact htwice (h.enumeration _ hvalues)
  · have hmem := mem_compositionKeys.mp (isFilled_of_composition? hkey).1
    exact htwice (h.members _ (by simpa [hall] using hmem) _ hmembers)

/-- The type of a schema that lists null once repeats it exactly if `nullable` is added somewhere
to members of which one admits null. On expressions, a second null is added to all but those that
absorb the first. -/
theorem null_repeated_iff {schema : Value} {location : String} {t : TypeExpr}
    (h : typeOf schema location = .ok t) (honce : ∀ es, Reaches schema es → ListsNullOnce es) :
    (t.DoublesNull ↔ ∃ es, Reaches schema es ∧ AddsNullAgain es) ∧
      ∀ e : TypeExpr, e.nullable.nullable = e.nullable ↔ e.AbsorbsNull := by
  refine ⟨?_, fun e => TypeExpr.nullable_nullable_eq_iff⟩
  rw [typeOf_doublesNull schema h]
  constructor
  · rintro ⟨es, hreaches, htwice | hagain⟩
    · exact absurd htwice (honce es hreaches).not_listsNullTwice
    · exact ⟨es, hreaches, hagain⟩
  · rintro ⟨es, hreaches, hagain⟩
    exact ⟨es, hreaches, .inr hagain⟩

section Examples

def nullableChoice : Entries :=
  [(.str "anyOf", .list [.ofEntries [(.str "type", .str "string")],
    .ofEntries [(.str "type", .str "null")]]), (.str "nullable", .bool true)]

theorem typeOf_string (location : String) :
    typeOf (.ofEntries [(.str "type", .str "string")]) location = .ok .string := by
  rw [Value.ofEntries, typeOf_mapping rfl, mappingType]
  rfl

theorem typeOf_nullableChoice :
    typeOf (.ofEntries nullableChoice) "#" = .ok (.union [.string, .null, .null]) := by
  have hnull (location : String) :
      typeOf (.ofEntries [(.str "type", .str "null")]) location = .ok .null := by
    rw [Value.ofEntries, typeOf_mapping rfl, mappingType]
    rfl
  have hmembers : memberTypes nullableChoice "anyOf" "#" = .ok [.string, .null] := by
    rw [memberTypes_eq]
    change itemTypes [_, _] _ 0 = _
    rw [itemTypes, itemTypes, itemTypes, typeOf_string, hnull]
    rfl
  have hobject : objectType nullableChoice "#" = .ok (.union [.string, .null]) := by
    rw [objectType]
    change (do return joined .union (← memberTypes nullableChoice "anyOf" "#")) = _
    rw [hmembers]
    rfl
  rw [Value.ofEntries, typeOf_mapping rfl, mappingType]
  change (do return TypeExpr.nullable (← objectType nullableChoice "#")) = _
  rw [hobject]
  have hunion : TypeExpr.union [.string, .null] ≠ .null := by rintro ⟨⟩
  change Except.ok (TypeExpr.nullable (.union [.string, .null])) = _
  rw [TypeExpr.nullable, if_neg hunion]
  rfl

theorem doublesNull_textOrNull : (TypeExpr.union [.string, .null, .null]).DoublesNull := by
  rw [TypeExpr.doublesNull_union]
  left
  simp [AtMostOne, TypeExpr.null, TypeExpr.admitsNull_primitive]

theorem listsNullOnce_nullableChoice {es : Entries}
    (h : Reaches (.ofEntries nullableChoice) es) : ListsNullOnce es := by
  have hplain {kind : String} : ListsNullOnce [(.str "type", .str kind)] := by
    refine ⟨fun values h => ?_, fun key hkey members h => ?_⟩
    · cases h
    · rcases List.mem_pair.mp hkey with rfl | rfl <;> cases h
  have hinside : LooksInside nullableChoice := ⟨.absent, rfl, by decide⟩
  cases h with
  | here =>
    refine ⟨fun values h => ?_, fun key hkey members h => ?_⟩
    · cases h
    · rcases List.mem_pair.mp hkey with rfl | rfl
      · cases h
        have htext := (typeOf_agreesOnNull _ (typeOf_string "#")).admits
        rw [TypeExpr.string, TypeExpr.admitsNull_primitive] at htext
        simp [AtMostOne, ← htext]
      · cases h
  | inside _ huses hreaches =>
    obtain ⟨members, hmembers, hs⟩ := (hinside.uses_iff rfl).mp huses
    cases hmembers
    rcases List.mem_pair.mp hs with rfl | rfl
    all_goals
      cases hreaches with
      | here => exact hplain
      | inside _ huses _ =>
        rcases huses with ⟨h, -⟩ | ⟨-, h, -⟩ | ⟨-, -, h, -⟩ | ⟨-, -, h⟩ <;> cases h

theorem nullableChoice_doublesNull :
    (∀ es, Reaches (.ofEntries nullableChoice) es → ListsNullOnce es) ∧
      (∃ t, typeOf (.ofEntries nullableChoice) "#" = .ok t ∧ t.DoublesNull) ∧
      TypeExpr.string.nullable.nullable ≠ TypeExpr.string.nullable := by
  refine ⟨fun _ => listsNullOnce_nullableChoice,
    ⟨_, typeOf_nullableChoice, doublesNull_textOrNull⟩, ?_⟩
  rw [Ne, TypeExpr.nullable_nullable_eq_iff]
  simp [TypeExpr.AbsorbsNull, TypeExpr.string, TypeExpr.null]

theorem null_repeated_iff_nullableChoice :
    typeOf (.ofEntries nullableChoice) "#" = .ok (.union [.string, .null, .null]) ∧
      (∀ es, Reaches (.ofEntries nullableChoice) es → ListsNullOnce es) ∧
      ∃ es, Reaches (.ofEntries nullableChoice) es ∧ AddsNullAgain es := by
  have honce (es : Entries) (h : Reaches (.ofEntries nullableChoice) es) : ListsNullOnce es :=
    listsNullOnce_nullableChoice h
  obtain ⟨hrepeated, -⟩ := null_repeated_iff typeOf_nullableChoice honce
  exact ⟨typeOf_nullableChoice, honce, hrepeated.mp doublesNull_textOrNull⟩

end Examples

end ApiBindings.Schema
