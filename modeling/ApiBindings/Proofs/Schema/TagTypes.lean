import ApiBindings.Proofs.Schema.Frame
import ApiBindings.Proofs.Schema.Unshared

/-!
The types of schemas that discriminators select. Main statement: such a type has the tag as the one
literal of its property, as long as the properties of the schema and the enumeration of this one are
looked at; where they are not, the type is the one without the tag.
-/

namespace ApiBindings.Schema

open Entries (SameBut)

def TakesEnum (es : Entries) : Prop :=
  ∃ kind, Kind.of (es.get "type") = .ok kind ∧
    (kind ∈ [Kind.numeric, .boolean, .textual] ∨ kind = .absent ∧ isComposition es = false)

def LooksAtProperties (es : Entries) : Prop :=
  isComposition es = false ∧ ((es.get "enum").isFilled = true → ¬ TakesEnum es)

section Unseen

variable {es fs : Entries} {location : String}

theorem isComposition_sameBut {name : String} (h : SameBut name es fs)
    (hname : name ∉ compositionKeys) : isComposition fs = isComposition es := by
  have hne {key : String} (hkey : key ∈ compositionKeys) : key ≠ name :=
    fun heq => hname (heq ▸ hkey)
  rw [isComposition, isComposition, h.get (hne (by decide)), h.get (hne (by decide)),
    h.get (hne (by decide))]

theorem reference?_sameBut {name : String} (h : SameBut name es fs) (hname : "$ref" ≠ name) :
    reference? fs = reference? es := by
  rw [reference?, h.get hname, reference?]

theorem memberTypes_sameBut {name key : String} (h : SameBut name es fs)
    (hname : name ∉ compositionKeys) (hkey : key ∈ compositionKeys) :
    memberTypes fs key location = memberTypes es key location := by
  rw [memberTypes_eq, memberTypes_eq, h.get? fun heq => hname (heq ▸ hkey)]

section Enum

variable (h : SameBut "enum" es fs)
include h

theorem objectType_sameBut_enum : objectType fs location = objectType es location := by
  have hproperties : propertyTypes fs location = propertyTypes es location := by
    rw [propertyTypes_eq, propertyTypes_eq, h.get? (by decide), h.get (by decide)]
  have hindex : indexType fs location = indexType es location := by
    rw [indexType_eq, indexType_eq, h.get? (by decide)]
  have hmembers {key : String} (hkey : key ∈ compositionKeys) :
      memberTypes fs key location = memberTypes es key location :=
    memberTypes_sameBut h (by decide) hkey
  rw [objectType, objectType, reference?_sameBut h (by decide), hproperties, hindex,
    hmembers (by decide), hmembers (by decide), hmembers (by decide), h.get (by decide),
    h.get (by decide), h.get (by decide), h.get (by decide), h.get (by decide), h.get (by decide),
    h.get (by decide)]

theorem arrayType_sameBut_enum : arrayType fs location = arrayType es location := by
  simp (disch := decide) only [arrayType_eq, h.get, h.get?]

theorem mappingType_sameBut_enum (hno : ¬ TakesEnum es) :
    mappingType fs location = mappingType es location := by
  have hcomposition := isComposition_sameBut h (by decide)
  rw [mappingType, mappingType, objectType_sameBut_enum h, arrayType_sameBut_enum h,
    h.get (by decide), h.get (by decide), hcomposition]
  cases hkind : Kind.of (es.get "type") with
  | error e => rfl
  | ok kind =>
    have hseen (hkinds : kind ∈ [Kind.numeric, .boolean, .textual]) : False :=
      hno ⟨kind, hkind, .inl hkinds⟩
    cases kind with
    | numeric => exact (hseen (by decide)).elim
    | boolean => exact (hseen (by decide)).elim
    | textual => exact (hseen (by decide)).elim
    | absent =>
      have hcomposed : isComposition es = true := by
        by_contra hplain
        exact hno ⟨.absent, hkind, .inr ⟨rfl, by simpa using hplain⟩⟩
      simp only [hcomposed, Bool.not_true, Bool.and_false]
      rfl
    | _ => rfl

end Enum

section Properties

variable (h : SameBut "properties" es fs)
include h

theorem objectType_sameBut_properties (hcomposed : isComposition es = true) :
    objectType fs location = objectType es location := by
  have hmembers {key : String} (hkey : key ∈ compositionKeys) :
      memberTypes fs key location = memberTypes es key location :=
    memberTypes_sameBut h (by decide) hkey
  have hsame {key : String} (hkey : key ≠ "properties") : fs.get key = es.get key := h.get hkey
  rw [objectType, objectType, reference?_sameBut h (by decide),
    hsame (show "allOf" ≠ "properties" by decide), hsame (show "anyOf" ≠ "properties" by decide),
    hsame (show "oneOf" ≠ "properties" by decide), hsame (show "required" ≠ "properties" by decide),
    hmembers (by decide), hmembers (by decide), hmembers (by decide)]
  simp only [isComposition, Bool.or_eq_true] at hcomposed
  split
  · rfl
  · by_cases hall : (es.get "allOf").isFilled = true
    · rw [if_pos hall, if_pos hall]
    · by_cases hany : (es.get "anyOf").isFilled = true
      · rw [if_neg hall, if_neg hall, if_pos hany, if_pos hany]
      · have hone := (hcomposed.resolve_left (not_or.mpr ⟨hall, hany⟩))
        rw [if_neg hall, if_neg hall, if_neg hany, if_neg hany, if_pos hone, if_pos hone]

theorem LooksAtProperties.sameBut (hlooks : LooksAtProperties es) : LooksAtProperties fs := by
  have hcomposition := isComposition_sameBut h (by decide)
  simp only [LooksAtProperties, TakesEnum, hcomposition,
    h.get (show "type" ≠ "properties" by decide),
    h.get (show "enum" ≠ "properties" by decide)]
  exact hlooks

theorem mappingType_sameBut_properties (hlooks : ¬ LooksAtProperties es)
    (hkind : es.get "type" = .null ∨ es.get "type" = .str "object") :
    mappingType fs location = mappingType es location := by
  have hcomposition := isComposition_sameBut h (by decide)
  rw [mappingType, mappingType, h.get (by decide), h.get (by decide), h.get (by decide),
    hcomposition]
  by_cases hcomposed : isComposition es = true
  · rw [objectType_sameBut_properties h hcomposed]
    rcases hkind with hkind | hkind
    · simp only [hkind, hcomposed, Bool.not_true, Bool.and_false]
      rfl
    · rw [hkind]
      rfl
  · have hplain : isComposition es = false := by simpa using hcomposed
    obtain ⟨hfilled, kind, hof, htakes⟩ : (es.get "enum").isFilled = true ∧ TakesEnum es := by
      simpa [LooksAtProperties, hplain] using hlooks
    rcases hkind with hkind | hkind
    · simp only [hkind, hplain, hfilled, Bool.not_false, Bool.and_true]
      rfl
    · rw [hkind] at hof
      cases hof
      simp [Kind.ofName, Kind.numericNames, Kind.textualNames] at htakes

end Properties

end Unseen

section Tagged

variable {es fs : Entries} {name location : String} {t : TypeExpr}

def IsTag (name : String) (t : TypeExpr) : Prop :=
  t = .literals [Text.quote name] ∨ t = .union [.literals [Text.quote name], .null]

theorem nullable_literals_quote (name : String) :
    (TypeExpr.literals [Text.quote name]).nullable =
      .union [.literals [Text.quote name], .null] := by
  have hne : "null" ≠ Text.quote name := by
    intro heq
    have hlist := congrArg String.toList heq
    rw [Text.quote_toList, Text.quotedChars] at hlist
    cases hlist
  simp [TypeExpr.nullable, hne, TypeExpr.null]

theorem typeOf_tagged (h : SameBut "enum" es fs)
    (henum : fs.get? "enum" = some (tagEnumeration (.str name))) (href : reference? es = none)
    (htakes : TakesEnum es) (ht : typeOf (.ofEntries fs) location = .ok t) : IsTag name t := by
  have hfs : reference? fs = none := (reference?_sameBut h (by decide)).trans href
  have hcomposition := isComposition_sameBut h (by decide)
  have henumeration : fs.get "enum" = tagEnumeration (.str name) := by rw [Entries.get, henum]; rfl
  have hliterals (asText : Bool) {u : TypeExpr}
      (hu : TypeExpr.ofEnum (fs.get "enum") asText = .ok u) :
      u = .literals [Text.quote name] := by
    rw [henumeration] at hu
    cases asText <;> cases hu <;> rfl
  rw [Value.ofEntries, typeOf_mapping hfs] at ht
  obtain ⟨kind, hkind, hcases⟩ := mappingType_ok ht
  obtain ⟨kind', hkind', htakes⟩ := htakes
  rw [h.get (by decide)] at hkind
  cases hkind.symm.trans hkind'
  have hliteral : ∀ u, Dispatch fs location kind u → u = .literals [Text.quote name] := by
    intro u hu
    have hfilled : (fs.get "enum").isFilled = true := by rw [henumeration]; rfl
    have henumOr {asText : Bool} {v : TypeExpr} (hu : enumOr fs asText v = .ok u) :
        u = .literals [Text.quote name] := by
      rw [enumOr, if_pos hfilled] at hu
      exact hliterals asText hu
    cases hu with
    | numeric hu => exact henumOr hu
    | boolean hu => exact henumOr hu
    | textual hu => exact henumOr hu
    | enumeration _ _ hu => exact hliterals false hu
    | array hu => simp at htakes
    | untyped hopen hu =>
      rcases hopen with hopen | hopen
      · rw [hfilled] at hopen
        cases hopen
      · simp [← hcomposition, hopen] at htakes
    | object hkinds hu => rcases hkinds with rfl | rfl <;> simp at htakes
  rcases hcases with ⟨rfl, -⟩ | ⟨u, hu, rfl⟩
  · simp at htakes
  · rw [hliteral u hu]
    split_ifs
    · exact .inr (nullable_literals_quote name)
    · exact .inl rfl

theorem mappingType_shape {ps : Entries} (href : reference? fs = none)
    (hkind : fs.get "type" = .null ∨ fs.get "type" = .str "object")
    (hlooks : LooksAtProperties fs) (hproperties : fs.get? "properties" = some (.ofEntries ps))
    (ht : mappingType fs location = .ok t) :
    ∃ fields index, fieldTypes ps (((fs.get "required").filled?).getD (.list []))
        (location ++ "/properties/") = .ok fields ∧
      t = if (fs.get "nullable").isFilled then (TypeExpr.shape fields index).nullable
        else .shape fields index := by
  obtain ⟨hplain, henum⟩ := hlooks
  have hobject : ∀ u, objectType fs location = .ok u → ∃ fields index,
      fieldTypes ps (((fs.get "required").filled?).getD (.list []))
        (location ++ "/properties/") = .ok fields ∧ u = .shape fields index := by
    intro u hu
    have hget : fs.get "properties" = .ofEntries ps := by rw [Entries.get, hproperties]; rfl
    simp only [isComposition, Bool.or_eq_false_iff] at hplain
    rw [objectType, href] at hu
    simp only [hplain, hget, Value.ofEntries, Bool.and_false, Bool.false_and, Bool.not_false,
      Bool.true_or, Bool.false_eq_true, if_false, if_true] at hu
    obtain ⟨fields, hfields, hu⟩ := bind_eq_ok.mp hu
    obtain ⟨index, -, hu⟩ := bind_eq_ok.mp hu
    exact ⟨fields, index, propertyTypes_ok hproperties hfields, (pure_eq_ok.mp hu).symm⟩
  obtain ⟨kind, hof, hcases⟩ := mappingType_ok ht
  have hkinds : kind = .absent ∨ kind = .object := by
    rcases hkind with hkind | hkind
    · rw [hkind] at hof
      exact .inl (Except.ok.inj hof).symm
    · rw [hkind] at hof
      exact .inr (Except.ok.inj hof).symm
  have hdispatch : ∀ u, Dispatch fs location kind u → objectType fs location = .ok u := by
    intro u hu
    cases hu with
    | untyped _ hu => exact hu
    | object _ hu => exact hu
    | enumeration hfilled _ _ => exact absurd ⟨_, hof, .inr ⟨rfl, hplain⟩⟩ (henum hfilled)
    | _ => rcases hkinds with hkinds | hkinds <;> cases hkinds
  rcases hcases with ⟨rfl, -⟩ | ⟨u, hu, rfl⟩
  · rcases hkinds with hkinds | hkinds <;> cases hkinds
  · obtain ⟨fields, index, hfields, rfl⟩ := hobject u (hdispatch u hu)
    exact ⟨fields, index, hfields, rfl⟩

end Tagged

section Selected

variable {es fs : Entries} {target property location : String} {value : Scalar} {t : TypeExpr}

theorem exists_of_lastValue? {taggings : List Tagging} {key : Scalar}
    (h : lastValue? taggings target key = some value) :
    ∃ d ∈ taggings, d.target = target ∧ d.value = value := by
  obtain ⟨d, hd, hvalue⟩ := List.mem_filterMap.mp (List.mem_of_getLast? h)
  unfold Tagging.valueAt? at hvalue
  split at hvalue
  · split_ifs at hvalue with hsame
    exact ⟨d, hd, hsame.1, Option.some.inj hvalue⟩
  · cases hvalue

/-- The type restricts the property to the tag, in itself or in a part that it joins. -/
inductive Restricts (property tag : String) : TypeExpr → Prop
  | shape {fields : List (Field × TypeExpr)} {index : Option TypeExpr} {field : Field}
    {type : TypeExpr} : (field, type) ∈ fields → field.name = property → IsTag tag type →
    Restricts property tag (.shape fields index)
  | intersection {members : List TypeExpr} {t : TypeExpr} : t ∈ members →
    Restricts property tag t → Restricts property tag (.intersection members)
  | requiring {t : TypeExpr} {keys : List String} : Restricts property tag t →
    Restricts property tag (.requiring t keys)

theorem field_of_framed {taggings : List Tagging} {ps qs : Entries} {required : Value}
    {tag : String} {fields : List (Field × TypeExpr)}
    (h : FramedProperties taggings target ps qs)
    (hlast : lastValue? taggings target (.str property) = some (.str tag))
    (hfields : fieldTypes qs required location = .ok fields) :
    ∃ field type, (field, type) ∈ fields ∧ field.name = property ∧
      (TakesEnum (keptIn ps (.str property)) → IsTag tag type) ∧
      (¬ TakesEnum (keptIn ps (.str property)) →
        ∃ place, typeOf (.ofEntries (keptIn ps (.str property))) place = .ok type) := by
  obtain ⟨fs, hfound, hsame, henum⟩ := h.tagged (.str property) (.str tag) rfl hlast
  have hmem : (Scalar.str property, Value.ofEntries fs) ∈ qs := Entries.mem_of_get? hfound
  obtain ⟨⟨field, type⟩, hfield, hname, -, place, htype⟩ :=
    exists_right_of_forall₂ (fieldTypes_ok hfields) hmem
  have href := reference?_keptIn ps (.str property)
  refine ⟨field, type, hfield, (Scalar.str.inj hname).symm,
    fun htakes => typeOf_tagged hsame henum href htakes htype, fun hno => ⟨place, ?_⟩⟩
  have hfs : reference? fs = none := (reference?_sameBut hsame (by decide)).trans href
  rw [Value.ofEntries, typeOf_mapping hfs, mappingType_sameBut_enum hsame hno] at htype
  rw [Value.ofEntries, typeOf_mapping href, htype]

theorem selected_framed {v : Value} {narrowed : Entries} {s u : Log} (hv : v.isJson = true)
    (h : Returns (followDiscriminators v) s narrowed u)
    (htarget : v.members.get? target = some (.ofEntries es))
    (hselected : ∃ d ∈ Tagging.ofSchemas v.members, d.target = target) :
    ∃ fs, narrowed.get? target = some (.ofEntries fs) ∧
      FramedTarget (Tagging.ofSchemas v.members) target es fs := by
  have hframes := foldlM_frames (.members hv) (fun _ => Tagging.isJson_of_mem hv)
    (followDiscriminators_returns h)
  obtain ⟨w, hw, hframed⟩ := hframes.schemas target _ htarget
  generalize hes : Value.ofEntries es = before at hframed
  cases hframed with
  | unchanged hall =>
    obtain ⟨d, hd, hdtarget⟩ := hselected
    exact absurd hdtarget (hall (by rw [← hes]; rfl) d hd)
  | narrowed hframed =>
    cases hes
    exact ⟨_, hw, hframed⟩

section Run

variable {v : Value} {narrowed : Entries} {s u : Log} (hv : v.isJson = true)
  (h : Returns (followDiscriminators v) s narrowed u)
  (htarget : v.members.get? target = some (.ofEntries es)) (href : reference? es = none)
  (hkind : es.get "type" = .null ∨ es.get "type" = .str "object")
include hv h htarget href hkind

theorem typeOf_selected_unseen (hselected : ∃ d ∈ Tagging.ofSchemas v.members, d.target = target)
    (hlooks : ¬ LooksAtProperties es) (location : String) :
    typeOf (narrowed.get target) location = typeOf (.ofEntries es) location := by
  obtain ⟨fs, hnarrowed, hframed⟩ := selected_framed hv h htarget hselected
  have hfs : reference? fs = none := (reference?_sameBut hframed.keywords (by decide)).trans href
  rw [Entries.get, hnarrowed, Option.getD_some, Value.ofEntries, Value.ofEntries,
    typeOf_mapping hfs, typeOf_mapping href,
    mappingType_sameBut_properties hframed.keywords hlooks hkind]

/-- The type of an object schema that discriminators select restricts the property to its last tag
if it depends on the properties, and the type of the property on its enumeration. It is the type
without the tag if it does not depend on the properties. -/
theorem followDiscriminators_restricts
    (hlast : lastValue? (Tagging.ofSchemas v.members) target (.str property) = some value) :
    ∃ tag, value = .str tag ∧
      (LooksAtProperties es → ∀ location t, typeOf (narrowed.get target) location = .ok t →
        ∃ fields index,
          (t = if (es.get "nullable").isFilled then (TypeExpr.shape fields index).nullable
            else .shape fields index) ∧
          (TakesEnum (keptIn (es.get "properties").members (.str property)) →
            Restricts property tag (.shape fields index)) ∧
          (¬ TakesEnum (keptIn (es.get "properties").members (.str property)) →
            ∃ field type place, (field, type) ∈ fields ∧ field.name = property ∧
              typeOf (.ofEntries (keptIn (es.get "properties").members (.str property))) place =
                .ok type)) ∧
      (¬ LooksAtProperties es → ∀ location,
        typeOf (narrowed.get target) location = typeOf (.ofEntries es) location) := by
  obtain ⟨d, hd, hdtarget, rfl⟩ := exists_of_lastValue? hlast
  obtain ⟨tag, htag⟩ := Tagging.exists_text (fun e he => (Value.isJson_members hv e he).2) hd
  refine ⟨tag, htag, fun hlooks location t ht => ?_, fun hlooks =>
    typeOf_selected_unseen hv h htarget href hkind ⟨d, hd, hdtarget⟩ hlooks⟩
  obtain ⟨fs, hnarrowed, hframed⟩ := selected_framed hv h htarget ⟨d, hd, hdtarget⟩
  obtain ⟨ps, qs, hps, hqs, hproperties⟩ := hframed.properties
  have hkept : (es.get "properties").members = ps := by
    cases hfound : es.get? "properties" <;> simp_all [Entries.get, Value.ofEntries, Value.members]
  have hfs : reference? fs = none := (reference?_sameBut hframed.keywords (by decide)).trans href
  rw [Entries.get, hnarrowed, Option.getD_some, Value.ofEntries, typeOf_mapping hfs] at ht
  have hkind' : fs.get "type" = .null ∨ fs.get "type" = .str "object" := by
    rwa [hframed.keywords.get (by decide)]
  obtain ⟨fields, index, hfields, rfl⟩ := mappingType_shape hfs hkind'
    (hlooks.sameBut hframed.keywords) hqs ht
  rw [htag] at hlast
  obtain ⟨field, type, hfield, hname, htakes, hno⟩ := field_of_framed hproperties hlast hfields
  rw [hkept, hframed.keywords.get (by decide)]
  refine ⟨fields, index, rfl, fun htake => .shape hfield hname (htakes htake), fun htake => ?_⟩
  obtain ⟨place, hplace⟩ := hno htake
  exact ⟨field, type, place, hfield, hname, hplace⟩

end Run

end Selected

section Examples

theorem followDiscriminators_restricts_describedKinds : describedKinds.isJson = true ∧
    ∃ narrowed log, Returns (followDiscriminators describedKinds) [] narrowed log ∧
      describedKinds.members.get? "Fish" = some (.ofEntries [(.str "type", .str "object")]) ∧
      lastValue? (Tagging.ofSchemas describedKinds.members) "Fish" (.str "kind") =
        some (.str "eel") ∧
      ∀ location t, typeOf (narrowed.get "Fish") location = .ok t →
        Restricts "kind" "eel" t := by
  have hjson : describedKinds.isJson = true := by decide
  obtain ⟨narrowed, log, hrun⟩ : ∃ narrowed log,
      (followDiscriminators describedKinds).run.run [] = (.ok narrowed, log) :=
    exists_of_isSome (by decide +kernel)
  have hlast : lastValue? (Tagging.ofSchemas describedKinds.members) "Fish" (.str "kind") =
      some (.str "eel") := by decide
  refine ⟨hjson, narrowed, log, hrun, rfl, hlast, fun location t ht => ?_⟩
  have hlooks : LooksAtProperties [(.str "type", .str "object")] :=
    ⟨rfl, fun hfilled => absurd hfilled (by decide)⟩
  have htakes : TakesEnum (keptIn [] (.str "kind")) := ⟨.absent, rfl, .inr ⟨rfl, rfl⟩⟩
  obtain ⟨tag, htag, hseen, -⟩ := followDiscriminators_restricts hjson hrun rfl rfl (.inr rfl) hlast
  obtain ⟨fields, index, rfl, hrestricts, -⟩ := hseen hlooks location t ht
  cases htag
  exact hrestricts htakes

/-- A kind that is composed of the schema whose discriminator selects it. -/
def composedKinds : Value :=
  .ofEntries [
    (.str "Pet", .ofEntries [(.str "discriminator", .ofEntries [
      (.str "propertyName", .str "kind"),
      (.str "mapping", .ofEntries [(.str "cat", .str "#/components/schemas/Cat")])])]),
    (.str "Cat", .ofEntries composedKind)]
where
  composedKind : Entries :=
    [(.str "allOf", .list [.ofEntries [(.str "$ref", .str "#/components/schemas/Pet")]])]

theorem typeOf_composedKind (location : String) :
    typeOf (.ofEntries composedKinds.composedKind) location = .ok (.named "Pet") := by
  have href (place : String) : typeOf (.ofEntries [(.str "$ref", .str "#/components/schemas/Pet")])
      place = .ok (.named "Pet") := by
    rw [Value.ofEntries, typeOf_reference rfl]
    rfl
  have hmembers : memberTypes composedKinds.composedKind "allOf" location = .ok [.named "Pet"] := by
    rw [memberTypes_eq]
    change itemTypes [_] _ _ = _
    rw [itemTypes, itemTypes, href]
    rfl
  have hobject : objectType composedKinds.composedKind location = .ok (.named "Pet") := by
    rw [objectType]
    change (memberTypes composedKinds.composedKind "allOf" location >>= _) = _
    rw [hmembers]
    rfl
  rw [Value.ofEntries, typeOf_mapping rfl, mappingType]
  change (objectType composedKinds.composedKind location >>= _) = _
  rw [hobject]
  rfl

theorem not_restricts_composedKinds :
    ¬ ∀ (v : Value) (narrowed : Entries) (s u : Log) (property : String), v.isJson = true →
      Returns (followDiscriminators v) s narrowed u →
      (v.members.filter fun e => (e.2.members.get "discriminator").isFilled).length = 1 →
      (∀ d ∈ Tagging.ofSchemas v.members, d.property = .str property) →
      ((Tagging.ofSchemas v.members).map Tagging.target).Nodup →
      ∀ d ∈ Tagging.ofSchemas v.members, ∀ es, v.members.get? d.target = some (.ofEntries es) →
        reference? es = none → (es.get "type" = .null ∨ es.get "type" = .str "object") →
        ∀ location t, typeOf (narrowed.get d.target) location = .ok t →
          ∃ tag, d.value = .str tag ∧ Restricts property tag t := by
  intro hclaim
  have hjson : composedKinds.isJson = true := by decide
  obtain ⟨narrowed, log, hrun⟩ : ∃ narrowed log,
      (followDiscriminators composedKinds).run.run [] = (.ok narrowed, log) :=
    exists_of_isSome (by decide +kernel)
  have htaggings : Tagging.ofSchemas composedKinds.members = [⟨"Cat", .str "kind", .str "cat"⟩] :=
    rfl
  have hmem : (⟨"Cat", .str "kind", .str "cat"⟩ : Tagging) ∈
      Tagging.ofSchemas composedKinds.members := by
    rw [htaggings]
    exact List.mem_singleton_self _
  have hcat : composedKinds.members.get? "Cat" = some (.ofEntries composedKinds.composedKind) := rfl
  have hunseen := typeOf_selected_unseen hjson hrun hcat rfl (.inl rfl) ⟨_, hmem, rfl⟩
    (fun hlooks => absurd hlooks.1 (by decide)) "#"
  obtain ⟨tag, -, hrestricts⟩ := hclaim composedKinds narrowed [] log "kind" hjson hrun rfl
    (by simp [htaggings]) (by simp [htaggings]) _ hmem composedKinds.composedKind rfl rfl
    (.inl rfl) "#" _ (hunseen.trans (typeOf_composedKind "#"))
  cases hrestricts

end Examples

end ApiBindings.Schema
