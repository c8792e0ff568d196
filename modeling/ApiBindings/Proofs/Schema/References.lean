import ApiBindings.Proofs.Document.Entries
import ApiBindings.Proofs.Schema.Resolve
import ApiBindings.Proofs.TypeExpr.Names
import ApiBindings.Schema.Content

/-!
The references that the type of a schema or of a body is made of. Main statement: each name in the
type is the name of one of them.
-/

namespace ApiBindings.Schema

variable {es : Entries} {s : Value} {location name : String} {t : TypeExpr}

def LooksInside (es : Entries) : Prop :=
  ∃ kind, Kind.of (es.get "type") = .ok kind ∧ (kind = .object ∨ kind = .other ∨
    kind = .absent ∧ ((es.get "enum").isFilled = false ∨ isComposition es = true))

inductive Uses (es : Entries) : Value → Prop
  | items {s : Value} : Kind.of (es.get "type") = .ok .array → es.get? "items" = some s → Uses es s
  | member {key : String} {members : List Value} {s : Value} : LooksInside es →
    composition? es = some key → es.get? key = some (.list members) → s ∈ members → Uses es s
  | property {label : Option Nat} {properties : Entries} {key : Scalar} {s : Value} :
    LooksInside es → composition? es = none → es.get? "properties" = some (.map label properties) →
    (key, s) ∈ properties → Uses es s
  | additional {s : Value} : LooksInside es → composition? es = none →
    es.get? "additionalProperties" = some s → Uses es s

theorem Uses.part (h : Uses es s) : Part es s := by
  cases h with
  | items _ hs => exact .items hs
  | member _ hkey hmembers hs => exact .member (isFilled_of_composition? hkey).1 hmembers hs
  | property _ _ hproperties hs => exact .property hproperties hs
  | additional _ _ hs => exact .additional hs

/-- A reference that is met while the type of the schema is looked for. -/
inductive Refers : Value → String → Prop
  | here {label : Option Nat} {es : Entries} {ref : String} :
    reference? es = some (.str ref) → Refers (.map label es) ref
  | inside {label : Option Nat} {es : Entries} {s : Value} {ref : String} :
    reference? es = none → Uses es s → Refers s ref → Refers (.map label es) ref

def NamedBy (refs : String → Prop) (name : String) : Prop :=
  ∃ ref, refs ref ∧ ∃ location, referencedName ref location = .ok name

theorem NamedBy.mono {refs refs' : String → Prop} (h : NamedBy refs name)
    (hsub : ∀ ref, refs ref → refs' ref) : NamedBy refs' name := by
  obtain ⟨ref, href, hname⟩ := h
  exact ⟨ref, hsub ref href, hname⟩

theorem referencedType_ok {ref : Value} {place : Option String}
    (h : referencedType ref place = .ok t) :
    ∃ text name, ref = .str text ∧ t = .named name ∧ referencedName text place = .ok name := by
  obtain ⟨text, htext, h⟩ := bind_eq_ok.mp h
  obtain ⟨name, hname, h⟩ := bind_eq_ok.mp h
  cases h
  exact ⟨text, name, Value.expectText_ok htext, rfl, hname⟩

theorem memberTypes_mem {key : String} {types : List TypeExpr}
    (h : memberTypes es key location = .ok types) (ht : t ∈ types) (hname : name ∈ t.names) :
    ∃ items, es.get? key = some (.list items) ∧
      ∃ s ∈ items, ∃ location, typeOf s location = .ok t := by
  rcases memberTypes_cases h with ⟨items, hitems, hresolve⟩ | ⟨-, hany⟩
  · exact ⟨items, hitems, exists_left_of_forall₂ hresolve ht⟩
  · rw [hany t ht] at hname
    cases hname

theorem propertyTypes_mem {fields : List (Field × TypeExpr)} {f : Field × TypeExpr}
    (h : propertyTypes es location = .ok fields) (hf : f ∈ fields) :
    ∃ label properties key s, es.get? "properties" = some (.map label properties) ∧
      (key, s) ∈ properties ∧ ∃ location, typeOf s location = .ok f.2 := by
  have hmap (label : Option Nat) (properties : Entries)
      (hp : es.get? "properties" = some (.map label properties)) :
      ∃ key s, (key, s) ∈ properties ∧ ∃ location, typeOf s location = .ok f.2 := by
    obtain ⟨⟨key, s⟩, hs, -, -, ht⟩ :=
      exists_left_of_forall₂ (fieldTypes_ok (propertyTypes_ok hp h)) hf
    exact ⟨key, s, hs, ht⟩
  rw [propertyTypes] at h
  split at h
  · cases h
    cases hf
  · rename_i label properties hp
    obtain ⟨key, s, hs, ht⟩ := hmap _ _ hp
    exact ⟨_, _, key, s, hp, hs, ht⟩
  · split_ifs at h
    cases h
    cases hf

def NamesReferences (s : Value) : Prop :=
  ∀ location t, typeOf s location = .ok t → ∀ name ∈ t.names, NamedBy (Refers s) name

theorem joined_names {join : List TypeExpr → TypeExpr} {key : String} {types : List TypeExpr}
    (hjoin : ∀ ts, name ∈ (join ts).names ↔ ∃ t ∈ ts, name ∈ t.names)
    (hinside : LooksInside es) (hkey : composition? es = some key)
    (hmembers : memberTypes es key location = .ok types)
    (hparts : ∀ s, Uses es s → NamesReferences s) (h : name ∈ (joined join types).names) :
    ∃ s, Uses es s ∧ NamedBy (Refers s) name := by
  obtain ⟨t, ht, hname⟩ := mem_names_joined hjoin h
  obtain ⟨items, hitems, s, hs, place, htype⟩ := memberTypes_mem hmembers ht hname
  have huses : Uses es s := .member hinside hkey hitems hs
  exact ⟨s, huses, hparts s huses _ _ htype name hname⟩

theorem Assemble.names (h : Assemble es location t) (hinside : LooksInside es)
    (hparts : ∀ s, Uses es s → NamesReferences s) (hname : name ∈ t.names) :
    ∃ s, Uses es s ∧ NamedBy (Refers s) name := by
  cases h with
  | allOf hkey hmembers ht =>
    rw [names_withRequired ht] at hname
    exact joined_names (fun _ => TypeExpr.mem_names_intersection) hinside hkey hmembers hparts hname
  | anyOf hkey hmembers =>
    exact joined_names (fun _ => TypeExpr.mem_names_union) hinside hkey hmembers hparts hname
  | oneOf hkey hmembers ht =>
    rw [names_withRequired ht] at hname
    exact joined_names (fun _ => TypeExpr.mem_names_union) hinside hkey hmembers hparts hname
  | empty => cases hname
  | freeForm => cases hname
  | shape hcomposed hguard hfields hindex =>
    have hnone := composition?_eq_none.mpr hcomposed
    rcases TypeExpr.mem_names_shape.mp hname with ⟨f, hf, hfield⟩ | ⟨u, hu, hvalue⟩
    · obtain ⟨label, properties, key, s, hp, hs, place, htype⟩ := propertyTypes_mem hfields hf
      have huses : Uses es s := .property hinside hnone hp hs
      exact ⟨s, huses, hparts s huses _ _ htype name hfield⟩
    · rcases indexType_ok hindex with ⟨rfl, -⟩ | ⟨s, u', hs, rfl, place, htype⟩
      · cases hu
      · cases hu
        have huses : Uses es s := .additional hinside hnone hs
        exact ⟨s, huses, hparts s huses _ _ htype name hvalue⟩
  | unconstrained => cases hname

theorem Dispatch.names {kind : Kind} (h : Dispatch es location kind t)
    (hkind : Kind.of (es.get "type") = .ok kind) (href : reference? es = none)
    (hparts : ∀ s, Uses es s → NamesReferences s) (hname : name ∈ t.names) :
    ∃ s, Uses es s ∧ NamedBy (Refers s) name := by
  cases h with
  | numeric h =>
    rw [names_enumOr h rfl] at hname
    cases hname
  | boolean h =>
    rw [names_enumOr h rfl] at hname
    cases hname
  | textual h =>
    rw [names_enumOr h rfl] at hname
    cases hname
  | array h =>
    obtain ⟨s, item, hs, ⟨place, htype⟩, ht⟩ := arrayType_ok h
    have hitem : t.names = item.names := by
      rcases ht with rfl | ⟨n, rfl, -⟩ <;> rw [TypeExpr.names]
    have huses : Uses es s := .items hkind hs
    exact ⟨s, huses, hparts s huses _ _ htype name (hitem ▸ hname)⟩
  | enumeration _ _ h =>
    rw [TypeExpr.names_ofEnum h] at hname
    cases hname
  | untyped hopen h =>
    exact (objectType_ok href h).names ⟨_, hkind, .inr (.inr ⟨rfl, hopen⟩)⟩ hparts hname
  | object hobject h =>
    have hinside : LooksInside es := ⟨kind, hkind, hobject.imp_right .inl⟩
    exact (objectType_ok href h).names hinside hparts hname

theorem mappingType_names (h : mappingType es location = .ok t) (href : reference? es = none)
    (hparts : ∀ s, Uses es s → NamesReferences s) (hname : name ∈ t.names) :
    ∃ s, Uses es s ∧ NamedBy (Refers s) name := by
  obtain ⟨kind, hkind, ⟨-, rfl⟩ | ⟨u, hu, rfl⟩⟩ := mappingType_ok h
  · cases hname
  · refine hu.names hkind href hparts ?_
    split_ifs at hname
    · rwa [TypeExpr.names_nullable] at hname
    · exact hname

/-- Nothing but references brings names into the type of a schema. -/
theorem typeOf_names (s : Value) : NamesReferences s := by
  intro location t h name hname
  match s with
  | .map label es =>
    cases href : reference? es with
    | some ref =>
      rw [typeOf_reference href] at h
      obtain ⟨text, name', rfl, rfl, hreferenced⟩ := referencedType_ok h
      cases List.mem_singleton.mp hname
      exact ⟨text, .here href, _, hreferenced⟩
    | none =>
      rw [typeOf_mapping href] at h
      -- the types of the parts are looked for in turn, and each part is smaller than the schema
      have hparts (s : Value) (hs : Uses es s) : NamesReferences s :=
        have := hs.part.sizeOf_lt
        typeOf_names s
      obtain ⟨s, hs, hnamed⟩ := mappingType_names h href hparts hname
      exact hnamed.mono fun ref hr => .inside href hs hr
  | .scalar v =>
    rw [typeOf_scalar] at h
    cases h
    cases hname
  | .list _ | .set _ | .pair _ _ =>
    rw [typeOf] at h
    · cases h
      cases hname
    · rintro _ _ ⟨⟩
termination_by sizeOf s

def MediaSchema (es : Entries) (s : Value) : Prop :=
  ∃ content key media, (es.get "content").entries = .ok content ∧
    selectMedia? content mediaPriority = .ok (some (key, media)) ∧ s = media.members.get "schema"

inductive BodyRefers : Value → String → Prop
  | here {label : Option Nat} {es : Entries} {ref : String} :
    reference? es = some (.str ref) → BodyRefers (.map label es) ref
  | media {label : Option Nat} {es : Entries} {s : Value} {ref : String} :
    reference? es = none → MediaSchema es s → Refers s ref → BodyRefers (.map label es) ref

theorem MediaSchema.throughout {S : Scalar → Prop} {Q : Entries → Prop}
    (hlasting : Value.Lasting S Q) (hes : es.Throughout S Q) (h : MediaSchema es s) :
    s.Throughout S Q := by
  obtain ⟨content, key, media, hcontent, hfound, rfl⟩ := h
  exact mediaSchema_throughout hlasting hes hcontent hfound

/-- A body is void, or it is read by a reference or by the schema of a media type. -/
theorem contentType_cases {body : Value} (h : contentType body location = .ok t) :
    t = .void ∨ ∃ label es, body = .map label es ∧
      ((∃ ref, reference? es = some ref ∧ referencedType ref (some location) = .ok t) ∨
        reference? es = none ∧ ∃ s place, MediaSchema es s ∧ typeOf s place = .ok t) := by
  unfold contentType at h
  split at h
  · rename_i label es
    cases href : reference? es with
    | some ref =>
      rw [href] at h
      exact .inr ⟨label, es, rfl, .inl ⟨ref, href, h⟩⟩
    | none =>
      rw [href] at h
      dsimp only at h
      split_ifs at h
      · obtain ⟨content, hcontent, h⟩ := bind_eq_ok.mp h
        obtain ⟨found, hfound, h⟩ := bind_eq_ok.mp h
        cases found with
        | none => exact .inl (pure_eq_ok.mp h).symm
        | some found =>
          obtain ⟨key, media⟩ := found
          obtain ⟨fields, hfields, h⟩ := bind_eq_ok.mp h
          cases Value.entriesOrNone_ok hfields
          exact .inr ⟨label, es, rfl,
            .inr ⟨href, _, _, ⟨content, key, media, hcontent, hfound, rfl⟩,
            h⟩⟩
      · exact .inl (Except.ok.inj h).symm
  · exact .inl (Except.ok.inj h).symm

theorem contentType_names {body : Value} (h : contentType body location = .ok t)
    (hname : name ∈ t.names) : NamedBy (BodyRefers body) name := by
  rcases contentType_cases h with
    rfl | ⟨label, es, rfl, ⟨ref, href, hread⟩ | ⟨href, s, place, hmedia, htype⟩⟩
  · cases hname
  · obtain ⟨text, name', rfl, rfl, hreferenced⟩ := referencedType_ok hread
    cases List.mem_singleton.mp hname
    exact ⟨text, .here href, _, hreferenced⟩
  · exact (typeOf_names _ _ _ htype name hname).mono fun ref hr => .media href hmedia hr

theorem contentUnion_names {bodies : List (Scalar × Value)}
    (h : contentUnion bodies location = .ok (some t)) (hname : name ∈ t.names) :
    ∃ e ∈ bodies, NamedBy (BodyRefers e.2) name := by
  obtain ⟨types, htypes, h⟩ := bind_eq_ok.mp h
  obtain ⟨u, hu, hname⟩ := TypeExpr.mem_names_unionOf (pure_eq_ok.mp h) hname
  obtain ⟨e, he, hbody⟩ := exists_left_of_forall₂ (mapM_eq_ok.mp htypes) hu
  exact ⟨e, he, contentType_names hbody hname⟩

end ApiBindings.Schema
