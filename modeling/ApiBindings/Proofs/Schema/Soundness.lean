import ApiBindings.Proofs.Schema.Resolve
import ApiBindings.Proofs.Schema.Validity

/-!
The type of a schema accepts every datum that is valid for the schema. The induction is on the
schema; each keyword has a lemma that assumes the statement of the parts it uses.
-/

namespace ApiBindings

variable {names : String → Datum → Prop} {d : Datum}

namespace Entries

theorem get_of_get? {es : Entries} {key : String} {v : Value} (h : es.get? key = some v) :
    es.get key = v := by
  simp [get, h]

theorem get?_of_isFilled {es : Entries} {key : String} (h : (es.get key).isFilled = true) :
    es.get? key = some (es.get key) := by
  unfold get at h ⊢
  cases hg : es.get? key with
  | none => simp [hg, Value.isFilled, Scalar.isFilled] at h
  | some v => rfl

end Entries

namespace TypeExpr

theorem accepts_null : null.Accepts names d ↔ d = .null := accepts_primitive

theorem accepts_any : any.Accepts names d := accepts_primitive.mpr trivial

theorem accepts_number : number.Accepts names d ↔ ∃ x, d = .number x := accepts_primitive

theorem accepts_string : string.Accepts names d ↔ ∃ s, d = .string s := accepts_primitive

theorem accepts_boolean : boolean.Accepts names d ↔ ∃ b, d = .bool b := accepts_primitive

theorem accepts_nullable {t : TypeExpr} :
    t.nullable.Accepts names d ↔ t.Accepts names d ∨ d = .null := by
  unfold nullable
  split
  · rename_i h
    subst h
    simp [accepts_null]
  · split
    · rename_i tokens
      split
      · rename_i hnull
        refine ⟨.inl, fun h => h.elim id ?_⟩
        rintro rfl
        exact ⟨_, hnull, rfl⟩
      · simp [Accepts, AcceptsSome, accepts_null]
    · simp [Accepts, acceptsSome_iff, or_and_right, exists_or, accepts_null]
    · simp [Accepts, AcceptsSome, accepts_null]

theorem accepts_shape {fields : List (Field × TypeExpr)} {index : Option TypeExpr}
    {members : List (String × Datum)} (hf : AcceptsFields names fields members)
    (hi : AcceptsIndex names (fields.map (·.1.name)) index members) :
    (shape fields index).Accepts names (.object members) := by
  cases fields with
  | nil =>
    cases index with
    | none => simp [Accepts]
    | some t => exact ⟨members, rfl, hf, hi⟩
  | cons f fields => exact ⟨members, rfl, hf, hi⟩

end TypeExpr

namespace Schema

/-- The statement for one schema, which the induction carries from its parts to itself. -/
def SoundFor (names refs : String → Datum → Prop) (s : Value) : Prop :=
  ∀ location t d, typeOf s location = .ok t → Valid refs s d → t.Accepts names d

variable {refs : String → Datum → Prop} {es : Entries} {location : String}

theorem isComposed_of_isFilled {key : String} (hkey : key ∈ compositionKeys)
    (h : (es.get key).isFilled = true) : IsComposed es :=
  ⟨key, hkey, by simp [Entries.has, Entries.get?_of_isFilled h]⟩

theorem Keywords.isComposition_iff (hk : Keywords es) :
    isComposition es = true ↔ IsComposed es := by
  constructor
  · intro h
    simp only [isComposition, Bool.or_eq_true] at h
    rcases h with (h | h) | h
    · exact isComposed_of_isFilled (by simp) h
    · exact isComposed_of_isFilled (by simp) h
    · exact isComposed_of_isFilled (by simp) h
  · rintro ⟨key, hkey, h⟩
    obtain ⟨v, hv⟩ := Option.isSome_iff_exists.mp h
    obtain ⟨members, rfl, hne⟩ := hk.composition key hkey v hv
    have hfilled : (es.get key).isFilled = true := by
      simpa [Entries.get_of_get? hv, Value.isFilled] using hne
    rcases mem_compositionKeys.mp hkey with rfl | rfl | rfl <;> simp [isComposition, hfilled]

theorem Keywords.members (hk : Keywords es) {key : String} (hkey : key ∈ compositionKeys)
    (h : (es.get key).isFilled = true) : ∃ members, es.get? key = some (.list members) := by
  have hv := Entries.get?_of_isFilled h
  obtain ⟨members, hm, _⟩ := hk.composition key hkey _ hv
  exact ⟨members, hm ▸ hv⟩

theorem token?_enumerated {v : Value} {asText : Bool} (h : enumerated? v = some d)
    (htext : asText = true → ∃ s, d = .string s) :
    d.token? = some (TypeExpr.literalToken asText v) := by
  unfold enumerated? at h
  split at h <;> cases h
  · rfl
  · cases asText with
    | true => simp at htext
    | false => simp [Datum.token?, TypeExpr.literalToken]
  · cases asText with
    | true => simp at htext
    | false => rfl
  · cases asText <;> simp [Datum.token?, TypeExpr.literalToken, Value.text, Scalar.text]

theorem ofEnum_accepts {valid : Value → Datum → Prop} {asText : Bool} {t : TypeExpr}
    (hk : Keywords es) (hm : Meets es valid d) (hfilled : (es.get "enum").isFilled = true)
    (htext : asText = true → ∃ s, d = .string s)
    (h : TypeExpr.ofEnum (es.get "enum") asText = .ok t) : t.Accepts names d := by
  have hv := Entries.get?_of_isFilled hfilled
  obtain ⟨values, he, -, -⟩ := hk.enum _ hv
  rw [he] at hv h
  obtain ⟨v, hmem, hd⟩ := hm.enum values hv
  obtain ⟨elements, helements, h⟩ := bind_eq_ok.mp h
  cases helements
  cases pure_eq_ok.mp h
  exact ⟨_, List.mem_map_of_mem hmem, token?_enumerated hd htext⟩

theorem enumOr_accepts {valid : Value → Datum → Prop} {asText : Bool} {base t : TypeExpr}
    (hk : Keywords es) (hm : Meets es valid d) (hbase : base.Accepts names d)
    (htext : asText = true → ∃ s, d = .string s) (h : enumOr es asText base = .ok t) :
    t.Accepts names d := by
  rcases enumOr_ok h with ⟨hfilled, henum⟩ | ⟨-, rfl⟩
  · exact ofEnum_accepts hk hm hfilled htext henum
  · exact hbase

theorem accepts_joined_intersection {ts : List TypeExpr} (h : ∀ t ∈ ts, t.Accepts names d) :
    (joined .intersection ts).Accepts names d := by
  rcases joined_cases .intersection ts with ⟨t, rfl, hjoined⟩ | ⟨-, hjoined⟩
  · rw [hjoined]
    exact h t (List.mem_singleton_self t)
  · rw [hjoined]
    exact TypeExpr.acceptsAll_iff.mpr h

theorem accepts_joined_union {ts : List TypeExpr} (h : ∃ t ∈ ts, t.Accepts names d) :
    (joined .union ts).Accepts names d := by
  rcases joined_cases .union ts with ⟨t, rfl, hjoined⟩ | ⟨-, hjoined⟩
  · simpa [hjoined] using h
  · rw [hjoined]
    exact TypeExpr.acceptsSome_iff.mpr h

theorem Resolve.accepts_all {members : List Value} {types : List TypeExpr}
    (h : Resolve members types) (hsound : ∀ s ∈ members, SoundFor names refs s)
    (hv : ∀ s ∈ members, Valid refs s d) : ∀ t ∈ types, t.Accepts names d := by
  intro t ht
  obtain ⟨s, hs, location, hst⟩ := exists_left_of_forall₂ h ht
  exact hsound s hs location t d hst (hv s hs)

theorem Resolve.accepts_some {members : List Value} {types : List TypeExpr}
    (h : Resolve members types) (hsound : ∀ s ∈ members, SoundFor names refs s)
    (hv : ∃ s ∈ members, Valid refs s d) : ∃ t ∈ types, t.Accepts names d := by
  obtain ⟨s, hs, hd⟩ := hv
  obtain ⟨t, ht, location, hst⟩ := exists_right_of_forall₂ h hs
  exact ⟨t, ht, hsound s hs location t d hst hd⟩

theorem hasKeys_of_meets {valid : Value → Datum → Prop} {keys : List Value}
    {required : List String} (hm : Meets es valid d) (hcomp : IsComposed es)
    (hkeys : es.get? "required" = some (.list keys)) (hne : keys ≠ [])
    (hnames : List.Forall₂ (fun key name => Value.textField key = .ok name) keys required) :
    d.HasKeys required := by
  obtain ⟨members, rfl⟩ := hm.composed keys hcomp hkeys hne
  refine ⟨members, rfl, fun name hname => ?_⟩
  obtain ⟨key, hkey, hr⟩ := exists_left_of_forall₂ hnames hname
  have hstr : key = .str name := by
    unfold Value.textField at hr
    split at hr <;> cases hr
    rfl
  exact hm.required keys members hkeys rfl name (hstr ▸ hkey)

theorem withRequired_accepts {valid : Value → Datum → Prop} {t u : TypeExpr}
    (hk : Keywords es) (hm : Meets es valid d) (hcomp : IsComposed es)
    (ht : t.Accepts names d) (h : withRequired t (es.get "required") = .ok u) :
    u.Accepts names d := by
  rcases withRequired_ok h with ⟨-, rfl⟩ | ⟨hfilled, elements, required, helements, hr, rfl⟩
  · exact ht
  · have hv := Entries.get?_of_isFilled hfilled
    obtain ⟨keys, hlist, -⟩ := hk.required _ hv
    rw [hlist] at hv helements hfilled
    cases helements
    refine ⟨ht, hasKeys_of_meets hm hcomp hv ?_ hr⟩
    simpa [Value.isFilled] using hfilled

theorem Keywords.bounds {n : Int} (hk : Keywords es)
    (hn : (es.get "minItems").integerField = .ok n)
    (heq : (es.get "minItems").equals (es.get "maxItems") = true) :
    es.get? "minItems" = some (.int n) ∧ es.get? "maxItems" = some (.int n) := by
  cases hmin : es.get? "minItems" with
  | none => simp [Entries.get, hmin, Value.integerField, Scalar.integer?] at hn
  | some least =>
    obtain ⟨m, rfl⟩ := hk.minItems _ hmin
    rw [Entries.get_of_get? hmin] at hn heq
    cases hn
    cases hmax : es.get? "maxItems" with
    | none =>
      simp [Entries.get, hmax, Value.equals, Value.sameAs, Scalar.equals, Scalar.integer?] at heq
    | some greatest =>
      obtain ⟨m', rfl⟩ := hk.maxItems _ hmax
      rw [Entries.get_of_get? hmax] at heq
      simp only [Value.equals, Value.sameAs, Scalar.equals, Scalar.integer?, Bool.false_eq_true,
        if_false, beq_iff_eq] at heq
      exact ⟨rfl, by rw [heq]⟩

theorem arrayType_accepts {items : List Datum} {t : TypeExpr} (hk : Keywords es)
    (hm : Meets es (Valid refs) (.array items)) (hsound : ∀ s, Part es s → SoundFor names refs s)
    (h : arrayType es location = .ok t) : t.Accepts names (.array items) := by
  obtain ⟨s, item, hs, ⟨location, hitem⟩, h⟩ := arrayType_ok h
  have hall : ∀ x ∈ items, item.Accepts names x := fun x hx =>
    hsound s (.items hs) location item x hitem (hm.items s items hs rfl x hx)
  rcases h with rfl | ⟨n, rfl, hn, heq⟩
  · exact ⟨items, rfl, hall⟩
  · obtain ⟨hmin, hmax⟩ := hk.bounds hn heq
    have hlo := hm.minItems n items hmin rfl
    have hhi := hm.maxItems n items hmax rfl
    exact ⟨items, rfl, by omega, hall⟩

def Kind.Holds (d : Datum) : Kind → Prop
  | .numeric => ∃ x, d = .number x
  | .textual => ∃ s, d = .string s
  | .boolean => ∃ b, d = .bool b
  | .array => ∃ items, d = .array items
  | .null => d = .null
  | .object => ∃ members, d = .object members
  | .absent => False
  | .other => False

theorem IsOfType.holds {name : String} (h : IsOfType name d) : (Kind.ofName name).Holds d := by
  by_cases hnum : name ∈ Kind.numericNames
  · simp only [IsOfType, Kind.ofName, Kind.Holds, hnum, if_true] at h ⊢
    obtain ⟨x, hx, -⟩ := h
    exact ⟨x, hx⟩
  · by_cases htext : name ∈ Kind.textualNames
    · have hne : name ≠ "boolean" ∧ name ≠ "array" ∧ name ≠ "null" := by
        refine ⟨?_, ?_, ?_⟩ <;> rintro rfl <;> simp [Kind.textualNames] at htext
      simpa [IsOfType, Kind.ofName, Kind.Holds, hnum, htext, hne] using h
    · simp only [IsOfType, hnum, htext, if_false] at h
      split at h
      · exact h
      · exact h
      · exact h
      · exact h
      · exact h.elim

theorem Keywords.type_of_kind {kind : Kind} (hk : Keywords es)
    (h : Kind.of (es.get "type") = .ok kind) :
    (kind = .absent ∧ es.get? "type" = none) ∨
      ∃ name, es.get? "type" = some (.str name) ∧ kind = Kind.ofName name := by
  cases htype : es.get? "type" with
  | none =>
    simp only [Entries.get, htype, Option.getD_none, Kind.of, Except.ok.injEq] at h
    exact .inl ⟨h.symm, rfl⟩
  | some v =>
    obtain ⟨name, -, rfl⟩ := hk.type v htype
    rw [Entries.get_of_get? htype] at h
    cases h
    exact .inr ⟨name, rfl, rfl⟩

theorem object_of_equals {valid : Value → Datum → Prop} (hk : Keywords es)
    (hm : Meets es valid d) (h : (es.get "type").equals (.str "object") = true) :
    ∃ members, d = .object members := by
  cases htype : es.get? "type" with
  | none =>
    simp [Entries.get, htype, Value.equals, Value.sameAs, Scalar.equals, Scalar.integer?] at h
  | some v =>
    obtain ⟨name, -, rfl⟩ := hk.type v htype
    simp only [Entries.get_of_get? htype, Value.equals, Value.sameAs, Scalar.equals,
      Bool.false_eq_true, if_false, beq_iff_eq] at h
    subst h
    simpa [IsOfType, Kind.numericNames, Kind.textualNames] using hm.type _ htype

theorem object_of_type {valid : Value → Datum → Prop} (hm : Meets es valid d)
    (h : es.get? "type" = some (.str "object")) : ∃ members, d = .object members :=
  (hm.type _ h).holds

theorem Keywords.fields {fields : List (Field × TypeExpr)} (hk : Keywords es)
    (h : propertyTypes es location = .ok fields) :
    (es.get? "properties" = none ∧ fields = []) ∨
      ∃ label properties, es.get? "properties" = some (.map label properties) ∧
        List.Forall₂ (fun p f => p.1 = .str f.1.name ∧
          (((es.get "required").filled?).getD (.list [])).holds p.1 = .ok f.1.required ∧
          ∃ location, typeOf p.2 location = .ok f.2) properties fields := by
  cases hp : es.get? "properties" with
  | none => exact .inl ⟨rfl, propertyTypes_none hp h⟩
  | some v =>
    obtain ⟨-, label, properties, rfl, -⟩ := hk.properties v hp
    exact .inr ⟨label, properties, rfl, fieldTypes_ok (propertyTypes_ok hp h)⟩

theorem Keywords.requires {name : String} (hk : Keywords es)
    (h : (((es.get "required").filled?).getD (.list [])).holds (.str name) = .ok true) :
    ∃ keys, es.get? "required" = some (.list keys) ∧ Value.str name ∈ keys := by
  unfold Value.filled? at h
  split at h
  · rename_i hfilled
    have hv := Entries.get?_of_isFilled hfilled
    obtain ⟨keys, hlist, hstr⟩ := hk.required _ hv
    rw [hlist] at hv h
    simp only [Option.getD_some, Value.holds, Except.ok.injEq, List.any_eq_true] at h
    obtain ⟨key, hkey, hsame⟩ := h
    obtain ⟨s, rfl⟩ := hstr key hkey
    simp only [Value.sameAs, Scalar.isKey, Scalar.equals, if_true, Bool.or_eq_true,
      beq_iff_eq] at hsame
    rcases hsame with rfl | hsame
    · exact ⟨keys, hv, hkey⟩
    · simp at hsame
  · simp [Value.holds] at h

theorem fields_accept {fields : List (Field × TypeExpr)} {members : List (String × Datum)}
    (hk : Keywords es) (hm : Meets es (Valid refs) (.object members))
    (hsound : ∀ s, Part es s → SoundFor names refs s)
    (h : propertyTypes es location = .ok fields) :
    TypeExpr.AcceptsFields names fields members := by
  rw [TypeExpr.acceptsFields_iff]
  rcases hk.fields h with ⟨-, rfl⟩ | ⟨label, properties, hp, hall⟩
  · simp
  · intro f hf
    obtain ⟨⟨key, s⟩, hmem, rfl, hholds, location, ht⟩ := exists_left_of_forall₂ hall hf
    constructor
    · intro hreq
      rw [hreq] at hholds
      obtain ⟨keys, hkeys, hin⟩ := hk.requires hholds
      exact hm.required keys members hkeys rfl _ hin
    · intro x hx
      exact hsound s (.property hp hmem) location _ x ht
        (hm.properties label properties members hp rfl _ s x hmem hx)

theorem index_accepts {fields : List (Field × TypeExpr)} {index : Option TypeExpr}
    {members : List (String × Datum)} (hk : Keywords es)
    (hm : Meets es (Valid refs) (.object members))
    (hsound : ∀ s, Part es s → SoundFor names refs s)
    (hf : propertyTypes es location = .ok fields) (hi : indexType es location = .ok index) :
    TypeExpr.AcceptsIndex names (fields.map (·.1.name)) index members := by
  rcases indexType_ok hi with ⟨rfl, -⟩ | ⟨s, t, hs, rfl, location, ht⟩
  · trivial
  · intro key x hx hfresh
    refine hsound s (.additional hs) location t x ht (hm.additional s members hs rfl key x hx ?_)
    rintro ⟨label, properties, v, hp, hmem⟩
    rcases hk.fields hf with ⟨hnone, -⟩ | ⟨_, _, hp', hall⟩
    · rw [hp] at hnone
      cases hnone
    · rw [hp] at hp'
      cases hp'
      obtain ⟨f, hf, hname, -⟩ := exists_right_of_forall₂ hall hmem
      cases hname
      exact hfresh (List.mem_map_of_mem hf)

theorem Assemble.accepts {t : TypeExpr} (h : Assemble es location t) (hk : Keywords es)
    (hm : Meets es (Valid refs) d) (hsound : ∀ s, Part es s → SoundFor names refs s)
    (hnull : isComposition es = false → d ≠ .null) : t.Accepts names d := by
  have hmember {key : String} (hkey : key ∈ compositionKeys) {members : List Value}
      (hms : es.get? key = some (.list members)) : ∀ s ∈ members, SoundFor names refs s :=
    fun s hs => hsound s (.member hkey hms hs)
  cases h with
  | allOf hcomposed hmembers ht =>
    obtain ⟨hkey, hfilled⟩ := isFilled_of_composition? hcomposed
    obtain ⟨members, hms⟩ := hk.members hkey hfilled
    refine withRequired_accepts hk hm (isComposed_of_isFilled hkey hfilled) ?_ ht
    exact accepts_joined_intersection
      ((memberTypes_ok hms hmembers).accepts_all (hmember hkey hms) (hm.allOf members hms))
  | anyOf hcomposed hmembers =>
    obtain ⟨hkey, hfilled⟩ := isFilled_of_composition? hcomposed
    obtain ⟨members, hms⟩ := hk.members hkey hfilled
    exact accepts_joined_union
      ((memberTypes_ok hms hmembers).accepts_some (hmember hkey hms) (hm.anyOf members hms))
  | oneOf hcomposed hmembers ht =>
    obtain ⟨hkey, hfilled⟩ := isFilled_of_composition? hcomposed
    obtain ⟨members, hms⟩ := hk.members hkey hfilled
    obtain ⟨i, hi, hd, -⟩ := hm.oneOf members hms
    refine withRequired_accepts hk hm (isComposed_of_isFilled hkey hfilled) ?_ ht
    exact accepts_joined_union ((memberTypes_ok hms hmembers).accepts_some (hmember hkey hms)
      ⟨_, List.getElem_mem hi, hd⟩)
  | empty hcomp => exact hnull hcomp
  | freeForm _ hobject => exact object_of_equals hk hm hobject
  | shape _ hguard hf hi =>
    -- properties and conditions on further keys are well-formed beside the type of objects only
    have htype : es.get? "type" = some (.str "object") := by
      rcases hguard with hp | hg
      · cases hp' : es.get? "properties" with
        | none => simp [Entries.get, hp'] at hp
        | some v => exact (hk.properties v hp').1
      · cases ha : es.get? "additionalProperties" with
        | none => simp [Entries.get, ha, isGiven] at hg
        | some v => exact hk.additional v ha
    obtain ⟨members, rfl⟩ := object_of_type hm htype
    exact TypeExpr.accepts_shape (fields_accept hk hm hsound hf) (index_accepts hk hm hsound hf hi)
  | unconstrained => exact TypeExpr.accepts_any

theorem Keywords.holds_kind {valid : Value → Datum → Prop} {kind : Kind} (hk : Keywords es)
    (hm : Meets es valid d) (h : Kind.of (es.get "type") = .ok kind) :
    (kind = .absent ∧ es.get? "type" = none) ∨ kind.Holds d := by
  rcases hk.type_of_kind h with ⟨rfl, hnone⟩ | ⟨name, hname, rfl⟩
  · exact .inl ⟨rfl, hnone⟩
  · exact .inr (hm.type name hname).holds

theorem not_null_of_untyped {valid : Value → Datum → Prop} (hk : Keywords es)
    (hm : Meets es valid d) (htype : es.get? "type" = none)
    (henum : (es.get "enum").isFilled = false ∨ isComposition es = true)
    (hcomp : isComposition es = false) : d ≠ .null := by
  intro hd
  rcases hm.null hd with h | h | h
  · rw [htype] at h
    cases h
  · obtain ⟨v, hv⟩ := Option.isSome_iff_exists.mp h
    obtain ⟨values, rfl, hne, -⟩ := hk.enum v hv
    rw [Entries.get_of_get? hv, hcomp] at henum
    simp [Value.isFilled, hne] at henum
  · rw [← hk.isComposition_iff, hcomp] at h
    cases h

theorem Dispatch.accepts {kind : Kind} {t : TypeExpr} (h : Dispatch es location kind t)
    (href : reference? es = none) (hk : Keywords es) (hm : Meets es (Valid refs) d)
    (hsound : ∀ s, Part es s → SoundFor names refs s)
    (hkind : Kind.of (es.get "type") = .ok kind) : t.Accepts names d := by
  have hd := hk.holds_kind hm hkind
  cases h with
  | numeric h =>
    have hnumber : ∃ x, d = .number x := hd.resolve_left (by simp)
    exact enumOr_accepts hk hm (TypeExpr.accepts_number.mpr hnumber) (by simp) h
  | boolean h =>
    have hboolean : ∃ b, d = .bool b := hd.resolve_left (by simp)
    exact enumOr_accepts hk hm (TypeExpr.accepts_boolean.mpr hboolean) (by simp) h
  | textual h =>
    have hstring : ∃ s, d = .string s := hd.resolve_left (by simp)
    exact enumOr_accepts hk hm (TypeExpr.accepts_string.mpr hstring) (fun _ => hstring) h
  | array h =>
    obtain ⟨items, rfl⟩ := hd.resolve_left (by simp)
    exact arrayType_accepts hk hm hsound h
  | enumeration hfilled _ h => exact ofEnum_accepts hk hm hfilled (by simp) h
  | untyped henum h =>
    have htype := (hd.resolve_right id).2
    exact (objectType_ok href h).accepts hk hm hsound (not_null_of_untyped hk hm htype henum)
  | object hobject h =>
    rcases hobject with rfl | rfl
    · obtain ⟨members, rfl⟩ := hd.resolve_left (by simp)
      exact (objectType_ok href h).accepts hk hm hsound fun _ hnull => by cases hnull
    · exact (hd.resolve_left (by simp)).elim

theorem isFilled_nullable (h : es.get? "nullable" = some (.bool true)) :
    (es.get "nullable").isFilled = true := by
  simp [Entries.get_of_get? h, Value.isFilled, Scalar.isFilled]

theorem mappingType_accepts {t : TypeExpr} (href : reference? es = none) (hk : Keywords es)
    (hsound : ∀ s, Part es s → SoundFor names refs s)
    (h : mappingType es location = .ok t)
    (hv : (es.get? "nullable" = some (.bool true) ∧ d = .null) ∨ Meets es (Valid refs) d) :
    t.Accepts names d := by
  obtain ⟨kind, hkind, ⟨rfl, rfl⟩ | ⟨u, hu, rfl⟩⟩ := mappingType_ok h
  · rcases hv with ⟨-, rfl⟩ | hm
    · exact TypeExpr.accepts_null.mpr rfl
    · exact TypeExpr.accepts_null.mpr ((hk.holds_kind hm hkind).resolve_left (by simp))
  · rcases hv with ⟨hnullable, rfl⟩ | hm
    · rw [if_pos (isFilled_nullable hnullable)]
      exact TypeExpr.accepts_nullable.mpr (.inr rfl)
    · have ht := hu.accepts href hk hm hsound hkind
      split
      · exact TypeExpr.accepts_nullable.mpr (.inl ht)
      · exact ht

/-- Every datum that is valid for a schema is accepted by the type of the schema, provided that
the name of a reference accepts what the reference admits. -/
theorem accepts_of_valid {schema : Value} {t : TypeExpr}
    (hrefs : ∀ ref name location d, referencedName ref location = .ok name → refs ref d →
      names name d)
    (hs : IsSchema schema) (h : typeOf schema location = .ok t) (hv : Valid refs schema d) :
    t.Accepts names d := by
  induction hs generalizing location t d with
  | flag b =>
    rw [typeOf_scalar] at h
    cases h
    exact TypeExpr.accepts_any
  | reference href =>
    rw [typeOf_reference href] at h
    obtain ⟨ref, hr, h⟩ := bind_eq_ok.mp h
    cases hr
    obtain ⟨name, hname, h⟩ := bind_eq_ok.mp h
    cases pure_eq_ok.mp h
    rw [Valid, href] at hv
    obtain ⟨r, hr, hv⟩ := hv
    cases hr
    exact hrefs _ _ _ _ hname hv
  | mapping href hk _ ih =>
    rw [typeOf_mapping href] at h
    rw [valid_map_iff href] at hv
    exact mappingType_accepts href hk (fun s hs location t d => ih s hs) h hv

def petPair : Entries := [
  (.str "type", .str "array"),
  (.str "items", .map none [(.str "$ref", .str "#/components/schemas/pet")]),
  (.str "minItems", .int 2),
  (.str "maxItems", .int 2),
  (.str "nullable", .bool true)]

def petPairType : TypeExpr := .union [.tuple (.named "Pet") 2, .null]

theorem isSchema_petPair : IsSchema (.map none petPair) := by
  refine .mapping (by decide) ?_ ?_
  · constructor <;> simp [petPair, Entries.get?, Entries.find?, Scalar.isKey, Scalar.equals,
      typeNames, Kind.textualNames, compositionKeys]
  · intro s hs
    cases hs with
    | items h =>
      cases h
      exact @IsSchema.reference _ _ "#/components/schemas/pet" rfl
    | property h => cases h
    | additional h => cases h
    | member hkey h =>
      rcases mem_compositionKeys.mp hkey with rfl | rfl | rfl <;> cases h

theorem valid_petPair (d : Datum) :
    Valid (fun ref x => ref = "#/components/schemas/pet" ∧ x = d) (.map none petPair)
      (.array [d, d]) := by
  rw [valid_map_iff (by decide)]
  right
  constructor <;> simp [petPair, Entries.get?, Entries.find?, Scalar.isKey, Scalar.equals,
    IsOfType, Kind.textualNames, Kind.numericNames, IsComposed, compositionKeys, Entries.has]
  rw [Valid]
  exact ⟨_, rfl, rfl, rfl⟩

theorem typeOf_petPair : typeOf (.map none petPair) "#" = .ok petPairType := by
  have hitem : typeOf (.map none [(.str "$ref", .str "#/components/schemas/pet")]) "#/items" =
      .ok (.named "Pet") := by
    rw [typeOf]
    rfl
  have harray : arrayType petPair "#" = .ok (.tuple (.named "Pet") 2) := by
    rw [arrayType]
    change (typeOf (.map none [(.str "$ref", .str "#/components/schemas/pet")]) "#/items" >>= _) = _
    rw [hitem]
    rfl
  have hmapping : mappingType petPair "#" = .ok (TypeExpr.tuple (.named "Pet") 2).nullable := by
    rw [mappingType]
    change (arrayType petPair "#" >>= _) = _
    rw [harray]
    rfl
  have hnullable : (TypeExpr.tuple (.named "Pet") 2).nullable = petPairType := by
    simp [TypeExpr.nullable, TypeExpr.null, petPairType]
  rw [typeOf]
  exact hmapping.trans (congrArg Except.ok hnullable)

theorem accepts_of_valid_petPair :
    (IsSchema (.map none petPair) ∧ typeOf (.map none petPair) "#" = .ok petPairType ∧
      Valid (fun ref x => ref = "#/components/schemas/pet" ∧ x = .string "Rex")
        (.map none petPair) (.array [.string "Rex", .string "Rex"])) ∧
    petPairType.Accepts (fun name x => name = "Pet" ∧ x = .string "Rex")
      (.array [.string "Rex", .string "Rex"]) := by
  refine ⟨⟨isSchema_petPair, typeOf_petPair, valid_petPair _⟩, ?_⟩
  refine accepts_of_valid ?_ isSchema_petPair typeOf_petPair (valid_petPair _)
  rintro ref name location d h ⟨rfl, rfl⟩
  have hname : referencedName "#/components/schemas/pet" location = .ok "Pet" := by rfl
  rw [hname] at h
  cases h
  exact ⟨rfl, rfl⟩

end Schema

end ApiBindings
