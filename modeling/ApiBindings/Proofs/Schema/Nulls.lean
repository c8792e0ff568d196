import ApiBindings.Proofs.Schema.References
import ApiBindings.Proofs.Schema.TagTypes
import ApiBindings.Proofs.TypeExpr.Nulls
import Mathlib.Data.List.Forall2

/-!
Null among the alternatives of a type. Main statement: the keywords of a schema and of the members
that it alternates between tell whether its type admits null, and whether it absorbs another.
-/

namespace ApiBindings.Schema

def ReadsEnum (es : Entries) : Prop := (es.get "enum").isFilled = true ∧ TakesEnum es

def EnumeratesNull (es : Entries) : Prop :=
  ReadsEnum es ∧ ∃ values, (es.get "enum").elements = .ok values ∧ .null ∈ values

/-- The type of the schema is that of one of the members. Mandatory fields make another type of
it, and so do several members of `allOf`. -/
def Alternates (es : Entries) (members : List Value) : Prop :=
  LooksInside es ∧ ∃ key, composition? es = some key ∧ es.get? key = some (.list members) ∧
    (key = "anyOf" ∨ (es.get "required").isFilled = false ∧ (key = "oneOf" ∨ members.length = 1))

/-- Null comes from the type, from `nullable`, from the enumeration or from a member. -/
inductive AdmitsNull : Value → Prop
  | null {label : Option Nat} {es : Entries} : reference? es = none →
    Kind.of (es.get "type") = .ok .null → AdmitsNull (.map label es)
  | nullable {label : Option Nat} {es : Entries} : reference? es = none →
    (es.get "nullable").isFilled = true → AdmitsNull (.map label es)
  | enumeration {label : Option Nat} {es : Entries} : reference? es = none →
    EnumeratesNull es → AdmitsNull (.map label es)
  | member {label : Option Nat} {es : Entries} {members : List Value} {s : Value} :
    reference? es = none → Alternates es members → s ∈ members → AdmitsNull s →
    AdmitsNull (.map label es)

/-- The type is null or an enumeration with null, which `nullable` leaves as they are. -/
inductive AbsorbsNull : Value → Prop
  | null {label : Option Nat} {es : Entries} : reference? es = none →
    Kind.of (es.get "type") = .ok .null → AbsorbsNull (.map label es)
  | enumeration {label : Option Nat} {es : Entries} : reference? es = none →
    EnumeratesNull es → AbsorbsNull (.map label es)
  | member {label : Option Nat} {es : Entries} {s : Value} : reference? es = none →
    Alternates es [s] → AbsorbsNull s → AbsorbsNull (.map label es)

structure AgreesOnNull (s : Value) (t : TypeExpr) : Prop where
  admits : t.AdmitsNull ↔ AdmitsNull s
  absorbs : t.AbsorbsNull ↔ AbsorbsNull s

section Joined

variable {t u : TypeExpr} {ts : List TypeExpr}

theorem admitsNull_joined_union :
    (joined .union ts).AdmitsNull ↔ ∃ t ∈ ts, t.AdmitsNull := by
  rcases joined_cases .union ts with ⟨t, rfl, h⟩ | ⟨-, h⟩
  · simp [h]
  · rw [h, TypeExpr.admitsNull_union]

theorem absorbsNull_joined_union :
    (joined .union ts).AbsorbsNull ↔ ∃ t, ts = [t] ∧ t.AbsorbsNull := by
  rcases joined_cases .union ts with ⟨t, rfl, h⟩ | ⟨hmany, h⟩
  · simp [h]
  · simp [h, hmany, TypeExpr.not_absorbsNull_union]

end Joined

section Mapping

variable {es : Entries} {location : String} {kind : Kind} {t : TypeExpr}

theorem LooksInside.not_readsEnum (h : LooksInside es) : ¬ ReadsEnum es := by
  rintro ⟨hfilled, kind, hkind, htakes⟩
  obtain ⟨kind', hkind', hlooks⟩ := h
  rw [hkind] at hkind'
  cases hkind'
  rcases hlooks with rfl | rfl | ⟨rfl, hopen⟩
  · simp at htakes
  · simp at htakes
  · simp_all

theorem LooksInside.kind_mem (h : LooksInside es) (hkind : Kind.of (es.get "type") = .ok kind) :
    kind ∈ [Kind.object, .other, .absent] := by
  obtain ⟨kind', hkind', hlooks⟩ := h
  rw [hkind] at hkind'
  cases hkind'
  rcases hlooks with rfl | rfl | ⟨rfl, -⟩ <;> decide

theorem ReadsEnum.kind_mem (h : ReadsEnum es) (hkind : Kind.of (es.get "type") = .ok kind) :
    kind ∈ [Kind.numeric, .boolean, .textual, .absent] := by
  obtain ⟨-, kind', hkind', htakes⟩ := h
  rw [hkind] at hkind'
  cases hkind'
  rcases htakes with htakes | ⟨rfl, -⟩
  · exact List.mem_append_left [Kind.absent] htakes
  · decide

theorem LooksInside.ne_array (h : LooksInside es) : Kind.of (es.get "type") ≠ .ok .array :=
  fun hkind => absurd (h.kind_mem hkind) (by decide)

theorem ReadsEnum.ne_array (h : ReadsEnum es) : Kind.of (es.get "type") ≠ .ok .array :=
  fun hkind => absurd (h.kind_mem hkind) (by decide)

/-- The ways in which a mapping without reference is read, before null is added. -/
inductive Plain (es : Entries) (location : String) : TypeExpr → Prop
  | enumeration {asText : Bool} {t : TypeExpr} : ReadsEnum es →
    TypeExpr.ofEnum (es.get "enum") asText = .ok t → Plain es location t
  | primitive {name : String} : name ≠ "null" → ¬ ReadsEnum es → ¬ LooksInside es →
    Kind.of (es.get "type") ≠ .ok .array → Plain es location (.primitive name)
  | array {t : TypeExpr} : Kind.of (es.get "type") = .ok .array →
    arrayType es location = .ok t → Plain es location t
  | inside {t : TypeExpr} : LooksInside es → objectType es location = .ok t → Plain es location t

theorem plain_enumOr {asText : Bool} {name : String} (hkind : Kind.of (es.get "type") = .ok kind)
    (htakes : kind ∈ [Kind.numeric, .boolean, .textual]) (hname : name ≠ "null")
    (h : enumOr es asText (.primitive name) = .ok t) : Plain es location t := by
  have hread : TakesEnum es := ⟨kind, hkind, .inl htakes⟩
  rcases enumOr_ok h with ⟨hfilled, henum⟩ | ⟨hempty, rfl⟩
  · exact .enumeration ⟨hfilled, hread⟩ henum
  · have hreads : ¬ ReadsEnum es := fun ⟨hfilled, _⟩ => by simp [hempty] at hfilled
    refine .primitive hname hreads (fun hinside => ?_) ?_
    · have hother := hinside.kind_mem hkind
      cases kind <;> simp at htakes hother
    · rw [hkind]
      rintro ⟨⟩
      simp at htakes

theorem Dispatch.plain (h : Dispatch es location kind t)
    (hkind : Kind.of (es.get "type") = .ok kind) : Plain es location t := by
  cases h with
  | numeric h => exact plain_enumOr hkind (by simp) (by decide) h
  | boolean h => exact plain_enumOr hkind (by simp) (by decide) h
  | textual h => exact plain_enumOr hkind (by simp) (by decide) h
  | array h => exact .array hkind h
  | enumeration hfilled hplain h =>
    exact .enumeration ⟨hfilled, .absent, hkind, .inr ⟨rfl, hplain⟩⟩ h
  | untyped hopen h => exact .inside ⟨.absent, hkind, .inr (.inr ⟨rfl, hopen⟩)⟩ h
  | object hobject h => exact .inside ⟨kind, hkind, hobject.imp_right .inl⟩ h

theorem LooksInside.alternates_iff (h : LooksInside es) {key : String}
    (hkey : composition? es = some key) {members : List Value} : Alternates es members ↔
      es.get? key = some (.list members) ∧ (key = "anyOf" ∨
        (es.get "required").isFilled = false ∧ (key = "oneOf" ∨ members.length = 1)) := by
  simp [Alternates, h, hkey]

theorem not_alternates_of_composition? (h : composition? es = none) (members : List Value) :
    ¬ Alternates es members := by
  rintro ⟨-, key, hkey, -⟩
  simp [h] at hkey

theorem Alternates.unique {members others : List Value} (h : Alternates es members)
    (hothers : Alternates es others) : members = others := by
  obtain ⟨hinside, key, hkey, hmembers, -⟩ := h
  have hsame := ((hinside.alternates_iff hkey).mp hothers).1
  simpa [hmembers] using hsame

end Mapping

section Agreement

variable {es : Entries} {location : String} {t : TypeExpr}

theorem Resolve.agreesOnNull {members : List Value} {types : List TypeExpr}
    (h : Resolve members types)
    (hparts : ∀ s ∈ members, ∀ location t, typeOf s location = .ok t → AgreesOnNull s t) :
    List.Forall₂ AgreesOnNull members types := by
  have hboth := (List.forall₂_and_left members types).mpr ⟨hparts, h⟩
  exact hboth.imp fun s t ⟨hs, location, ht⟩ => hs location t ht

def FromMembers (es : Entries) (t : TypeExpr) : Prop :=
  ∃ members types, Alternates es members ∧ List.Forall₂ AgreesOnNull members types ∧
    t = joined .union types

def WithoutNull (es : Entries) (t : TypeExpr) : Prop :=
  (∀ members, ¬ Alternates es members) ∧ ¬ t.AdmitsNull

section Parts

variable (hinside : LooksInside es)
  (hparts : ∀ s, Uses es s → ∀ location t, typeOf s location = .ok t → AgreesOnNull s t)
include hinside hparts

theorem fromMembers_or_withoutNull_of_union {key : String} {types : List TypeExpr}
    (hkey : composition? es = some key) (hmembers : memberTypes es key location = .ok types)
    (halternates : ∀ members, es.get? key = some (.list members) → Alternates es members) :
    FromMembers es (joined .union types) ∨ WithoutNull es (joined .union types) := by
  rcases memberTypes_cases hmembers with ⟨members, hlist, hresolve⟩ | ⟨hno, hany⟩
  · have hagree := hresolve.agreesOnNull fun s hs => hparts s (.member hinside hkey hlist hs)
    exact .inl ⟨members, types, halternates members hlist, hagree, rfl⟩
  · refine .inr ⟨fun members h => hno members ((hinside.alternates_iff hkey).mp h).1, ?_⟩
    rw [admitsNull_joined_union]
    rintro ⟨t, ht, hnull⟩
    rw [hany t ht, TypeExpr.any, TypeExpr.admitsNull_primitive] at hnull
    exact absurd hnull (by decide)

theorem fromMembers_or_withoutNull_of_intersection {types : List TypeExpr}
    (hkey : composition? es = some "allOf") (hmembers : memberTypes es "allOf" location = .ok types)
    (hrequired : (es.get "required").isFilled = false) :
    FromMembers es (joined .intersection types) ∨ WithoutNull es (joined .intersection types) := by
  -- one member stands for itself under either keyword; several are an intersection
  rcases joined_cases .intersection types with ⟨t, rfl, h⟩ | ⟨hmany, h⟩
  · have halternates (members : List Value) (hlist : es.get? "allOf" = some (.list members)) :
        Alternates es members := by
      have hone := (memberTypes_ok hlist hmembers).length_eq
      exact (hinside.alternates_iff hkey).mpr ⟨hlist, .inr ⟨hrequired, .inr hone⟩⟩
    exact fromMembers_or_withoutNull_of_union hinside hparts hkey hmembers halternates
  · refine .inr ⟨fun members halternates => ?_, ?_⟩
    · obtain ⟨hlist, hone⟩ := (hinside.alternates_iff hkey).mp halternates
      have hlength := (memberTypes_ok hlist hmembers).length_eq
      obtain ⟨t, ht⟩ := List.length_eq_one_iff.mp (hlength.symm.trans (by simp_all))
      exact hmany t ht
    · rw [h, TypeExpr.admitsNull_of_not_isAlternatives rfl]
      nofun

theorem fromMembers_or_withoutNull (href : reference? es = none)
    (h : objectType es location = .ok t) : FromMembers es t ∨ WithoutNull es t := by
  have hapart {u : TypeExpr} (hcomposed : isComposition es = false) (hu : u.isAlternatives = false)
      (hnull : u ≠ .null) : FromMembers es u ∨ WithoutNull es u := by
    have hnone := composition?_eq_none.mpr hcomposed
    refine .inr ⟨not_alternates_of_composition? hnone, ?_⟩
    rwa [TypeExpr.admitsNull_of_not_isAlternatives hu]
  -- with mandatory fields the type is not that of the members any more
  have hrequiring {key : String} {u : TypeExpr} {keys : List String}
      (hkey : composition? es = some key) (hany : key ≠ "anyOf")
      (hfilled : (es.get "required").isFilled = true) :
      FromMembers es (.requiring u keys) ∨ WithoutNull es (.requiring u keys) := by
    refine .inr ⟨fun members h => ?_, ?_⟩
    · have hopen := ((hinside.alternates_iff hkey).mp h).2
      simp [hany, hfilled] at hopen
    · rw [TypeExpr.admitsNull_of_not_isAlternatives rfl]
      nofun
  cases objectType_ok href h with
  | allOf hkey hmembers ht =>
    rcases withRequired_ok ht with ⟨hrequired, rfl⟩ | ⟨hrequired, -, keys, -, -, rfl⟩
    · exact fromMembers_or_withoutNull_of_intersection hinside hparts hkey hmembers hrequired
    · exact hrequiring hkey (by decide) hrequired
  | anyOf hkey hmembers =>
    exact fromMembers_or_withoutNull_of_union hinside hparts hkey hmembers fun members hlist =>
      (hinside.alternates_iff hkey).mpr ⟨hlist, .inl rfl⟩
  | oneOf hkey hmembers ht =>
    rcases withRequired_ok ht with ⟨hrequired, rfl⟩ | ⟨hrequired, -, keys, -, -, rfl⟩
    · exact fromMembers_or_withoutNull_of_union hinside hparts hkey hmembers fun members hlist =>
        (hinside.alternates_iff hkey).mpr ⟨hlist, .inr ⟨hrequired, .inl rfl⟩⟩
    · exact hrequiring hkey (by decide) hrequired
  | empty hcomposed => exact hapart hcomposed rfl nofun
  | freeForm hcomposed => exact hapart hcomposed rfl nofun
  | shape hcomposed => exact hapart hcomposed rfl nofun
  | unconstrained hcomposed => exact hapart hcomposed rfl (by simp [TypeExpr.any, TypeExpr.null])

end Parts

section Read

theorem null_mem_tokens {items : List Value} {asText : Bool} :
    "null" ∈ items.map (TypeExpr.literalToken asText) ↔ .null ∈ items := by
  simp [TypeExpr.literalToken_eq_null]

def FromEnum (es : Entries) (t : TypeExpr) : Prop :=
  ReadsEnum es ∧ ∃ tokens, t = .literals tokens ∧ ("null" ∈ tokens ↔ EnumeratesNull es)

theorem Alternates.not_readsEnum {members : List Value} (h : Alternates es members) :
    ¬ ReadsEnum es :=
  h.1.not_readsEnum

variable (h : Plain es location t) (href : reference? es = none)
  (hparts : ∀ s, Uses es s → ∀ location t, typeOf s location = .ok t → AgreesOnNull s t)
include h href hparts

theorem Plain.null_cases :
    FromEnum es t ∨ ¬ ReadsEnum es ∧ (FromMembers es t ∨ WithoutNull es t) := by
  cases h with
  | enumeration hreads ht =>
    obtain ⟨items, hitems, rfl⟩ := ofEnum_ok ht
    refine .inl ⟨hreads, _, rfl, ?_⟩
    simp [null_mem_tokens, EnumeratesNull, hreads, hitems]
  | primitive hname hreads hinside =>
    refine .inr ⟨hreads, .inr ⟨fun members h => hinside h.1, ?_⟩⟩
    rwa [TypeExpr.admitsNull_primitive]
  | array harray ht =>
    refine .inr ⟨fun h => h.ne_array harray, .inr ⟨fun members h => h.1.ne_array harray, ?_⟩⟩
    obtain ⟨s, item, -, -, rfl | ⟨n, rfl, -⟩⟩ := arrayType_ok ht
    all_goals
      rw [TypeExpr.admitsNull_of_not_isAlternatives rfl]
      nofun
  | inside hinside ht =>
    exact .inr ⟨hinside.not_readsEnum, fromMembers_or_withoutNull hinside hparts href ht⟩

theorem Plain.admitsNull_iff : t.AdmitsNull ↔
    EnumeratesNull es ∨ ∃ members, Alternates es members ∧ ∃ s ∈ members, AdmitsNull s := by
  rcases h.null_cases href hparts with ⟨hreads, tokens, rfl, htokens⟩ | ⟨hreads, hfrom | hwithout⟩
  · have hno (members : List Value) : ¬ Alternates es members := fun h => h.not_readsEnum hreads
    simp [TypeExpr.admitsNull_literals, htokens, hno]
  · obtain ⟨members, types, halternates, hagree, rfl⟩ := hfrom
    have hmember : (∃ s ∈ members, AdmitsNull s) ↔ ∃ t ∈ types, t.AdmitsNull :=
      exists_iff_of_forall₂ (hagree.imp fun _ _ h => h.admits.symm)
    rw [admitsNull_joined_union, ← hmember]
    constructor
    · exact fun h => .inr ⟨members, halternates, h⟩
    · rintro (h | ⟨others, hothers, h⟩)
      · exact absurd h.1 hreads
      · rwa [halternates.unique hothers]
  · refine iff_of_false hwithout.2 ?_
    rintro (h | ⟨members, hmembers, -⟩)
    · exact hreads h.1
    · exact hwithout.1 members hmembers

theorem Plain.absorbsNull_iff : t.AbsorbsNull ↔
    EnumeratesNull es ∨ ∃ s, Alternates es [s] ∧ AbsorbsNull s := by
  rcases h.null_cases href hparts with ⟨hreads, tokens, rfl, htokens⟩ | ⟨hreads, hfrom | hwithout⟩
  · have hno (members : List Value) : ¬ Alternates es members := fun h => h.not_readsEnum hreads
    simp [TypeExpr.absorbsNull_literals, htokens, hno]
  · obtain ⟨members, types, halternates, hagree, rfl⟩ := hfrom
    rw [absorbsNull_joined_union]
    constructor
    · rintro ⟨t, rfl, ht⟩
      obtain ⟨s, hs, rfl⟩ : ∃ s, AgreesOnNull s t ∧ members = [s] := by
        cases hagree with
        | cons hs hrest =>
          cases hrest
          exact ⟨_, hs, rfl⟩
      exact .inr ⟨s, halternates, hs.absorbs.mp ht⟩
    · rintro (henum | ⟨s, hs, habsorbs⟩)
      · exact absurd henum.1 hreads
      · cases halternates.unique hs
        cases hagree with
        | cons hs hrest =>
          cases hrest
          exact ⟨_, rfl, hs.absorbs.mpr habsorbs⟩
  · refine iff_of_false (fun habsorbs => hwithout.2 habsorbs.admitsNull) ?_
    rintro (h | ⟨s, hs, -⟩)
    · exact hreads h.1
    · exact hwithout.1 [s] hs

end Read

theorem mappingType_plain (h : mappingType es location = .ok t) :
    Kind.of (es.get "type") = .ok .null ∧ t = .null ∨
      Kind.of (es.get "type") ≠ .ok .null ∧ ∃ u, Plain es location u ∧
        t = if (es.get "nullable").isFilled then u.nullable else u := by
  obtain ⟨kind, hkind, ⟨rfl, ht⟩ | ⟨u, hu, ht⟩⟩ := mappingType_ok h
  · exact .inl ⟨hkind, ht⟩
  · refine .inr ⟨?_, u, hu.plain hkind, ht⟩
    rw [hkind]
    rintro ⟨⟩
    cases hu with
    | object hobject => simp at hobject

theorem mappingType_agreesOnNull {label : Option Nat} (h : mappingType es location = .ok t)
    (href : reference? es = none)
    (hparts : ∀ s, Uses es s → ∀ location t, typeOf s location = .ok t → AgreesOnNull s t) :
    AgreesOnNull (.map label es) t := by
  rcases mappingType_plain h with ⟨hkind, rfl⟩ | ⟨hkind, u, hu, rfl⟩
  · exact ⟨iff_of_true (TypeExpr.AbsorbsNull.admitsNull (.inl rfl)) (.null href hkind),
      iff_of_true (.inl rfl) (.null href hkind)⟩
  · have hadmits : AdmitsNull (.map label es) ↔
        (es.get "nullable").isFilled = true ∨ u.AdmitsNull := by
      rw [hu.admitsNull_iff href hparts]
      constructor
      · rintro (⟨-, h⟩ | ⟨-, h⟩ | ⟨-, h⟩ | ⟨-, hmembers, hs, h⟩)
        · exact absurd h hkind
        · exact .inl h
        · exact .inr (.inl h)
        · exact .inr (.inr ⟨_, hmembers, _, hs, h⟩)
      · rintro (h | h | ⟨members, hmembers, s, hs, h⟩)
        · exact .nullable href h
        · exact .enumeration href h
        · exact .member href hmembers hs h
    have habsorbs : AbsorbsNull (.map label es) ↔ u.AbsorbsNull := by
      rw [hu.absorbsNull_iff href hparts]
      constructor
      · rintro (⟨-, h⟩ | ⟨-, h⟩ | ⟨-, hs, h⟩)
        · exact absurd h hkind
        · exact .inl h
        · exact .inr ⟨_, hs, h⟩
      · rintro (h | ⟨s, hs, h⟩)
        · exact .enumeration href h
        · exact .member href hs h
    constructor
    · rw [hadmits]
      split_ifs with hnullable
      · simp [hnullable, TypeExpr.admitsNull_nullable]
      · simp [hnullable]
    · rw [habsorbs]
      split_ifs
      · exact TypeExpr.absorbsNull_nullable
      · rfl

theorem typeOf_cases {s : Value} (h : typeOf s location = .ok t) :
    (∃ label es, s = .map label es ∧ reference? es = none ∧ mappingType es location = .ok t ∧
      ∀ part, Uses es part → sizeOf part < sizeOf s) ∨
      (∀ label es, reference? es = none → s ≠ .map label es) ∧ t.isAlternatives = false ∧
        t.parts = [] ∧ t ≠ .null := by
  cases s with
  | map label es =>
    cases href : reference? es with
    | some ref =>
      rw [typeOf_reference href] at h
      obtain ⟨-, name, -, rfl, -⟩ := referencedType_ok h
      refine .inr ⟨?_, rfl, rfl, ?_⟩
      · rintro _ _ hnone ⟨⟩
        simp [hnone] at href
      · rintro ⟨⟩
    | none =>
      rw [typeOf_mapping href] at h
      refine .inl ⟨label, es, rfl, href, h, fun part hpart => ?_⟩
      have hsmaller := hpart.part.sizeOf_lt
      rw [Value.map.sizeOf_spec]
      omega
  | _ =>
    rw [typeOf] at h
    · cases h
      refine .inr ⟨?_, rfl, rfl, by simp [TypeExpr.any, TypeExpr.null]⟩
      rintro _ _ _ ⟨⟩
    · rintro _ _ ⟨⟩

/-- The keywords tell whether the type of the schema admits null. -/
theorem typeOf_agreesOnNull (s : Value) {location : String} {t : TypeExpr}
    (h : typeOf s location = .ok t) : AgreesOnNull s t := by
  rcases typeOf_cases h with ⟨label, es, hs, href, h, hsmaller⟩ | ⟨hno, hplain, -, hnull⟩
  · -- a member is read as any schema is, and it is smaller than the mapping
    have hparts (part : Value) (hpart : Uses es part) (place : String) (t : TypeExpr)
        (ht : typeOf part place = .ok t) : AgreesOnNull part t :=
      have := hsmaller part hpart
      typeOf_agreesOnNull part ht
    rw [hs]
    exact mappingType_agreesOnNull h href hparts
  · have hadmits : ¬ t.AdmitsNull := by rwa [TypeExpr.admitsNull_of_not_isAlternatives hplain]
    constructor
    · refine iff_of_false hadmits ?_
      rintro (⟨href, -⟩ | ⟨href, -⟩ | ⟨href, -⟩ | ⟨href, -⟩) <;> exact hno _ _ href rfl
    · refine iff_of_false (fun h => hadmits h.admitsNull) ?_
      rintro (⟨href, -⟩ | ⟨href, -⟩ | ⟨href, -⟩) <;> exact hno _ _ href rfl
termination_by sizeOf s

end Agreement

end ApiBindings.Schema
