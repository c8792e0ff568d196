import ApiBindings.Proofs.Document.Unlabelled
import ApiBindings.Proofs.Schema.References
import ApiBindings.Proofs.Schema.Tagging

/-!
What following the discriminators does to a collection of schemas. Main statement: the same schemas
stand in it in the same order, and none of them refers to anything new.
-/

namespace ApiBindings.Schema

def Narrows (v w : Value) : Prop := ∀ ref, Refers w ref → Refers v ref

theorem Narrows.refl (v : Value) : Narrows v v := fun _ h => h

def Narrowed (schemas narrowed : Entries) : Prop :=
  List.Forall₂ (fun e f => e.1 = f.1 ∧ Narrows e.2 f.2) schemas narrowed

theorem Narrowed.refl (schemas : Entries) : Narrowed schemas schemas :=
  List.forall₂_same.mpr fun e _ => ⟨rfl, .refl e.2⟩

theorem Narrowed.trans {schemas narrowed last : Entries} (h : Narrowed schemas narrowed)
    (h' : Narrowed narrowed last) : Narrowed schemas last := by
  induction h generalizing last with
  | nil => exact h'
  | cons he _ ih =>
    cases h' with
    | cons hf h' =>
      exact .cons ⟨he.1.trans hf.1, fun ref hr => he.2 ref (hf.2 ref hr)⟩ (ih h')

/-- From one mapping to another only the properties have changed, and they refer to nothing new, or
an enumeration was added. -/
structure Trims (es fs : Entries) : Prop where
  keys : ∀ key, key ≠ "properties" → key ≠ "enum" → fs.get? key = es.get? key
  enum : (fs.get "enum").isFilled = false → (es.get "enum").isFilled = false
  properties : ∀ label ps key s, fs.get? "properties" = some (.map label ps) → (key, s) ∈ ps →
    ∀ ref, Refers s ref → ∃ label' ps' key' s', es.get? "properties" = some (.map label' ps') ∧
      (key', s') ∈ ps' ∧ Refers s' ref

namespace Trims

variable {es fs : Entries}

theorem get (h : Trims es fs) (key : String) (hp : key ≠ "properties") (he : key ≠ "enum") :
    fs.get key = es.get key := by
  rw [Entries.get, h.keys key hp he, Entries.get]

theorem isComposition (h : Trims es fs) : Schema.isComposition fs = Schema.isComposition es := by
  unfold Schema.isComposition
  rw [h.get "allOf" (by decide) (by decide), h.get "anyOf" (by decide) (by decide),
    h.get "oneOf" (by decide) (by decide)]

theorem composition? (h : Trims es fs) : Schema.composition? fs = Schema.composition? es := by
  simp only [Schema.composition?, compositionKeys, List.find?,
    h.get "allOf" (by decide) (by decide), h.get "anyOf" (by decide) (by decide),
    h.get "oneOf" (by decide) (by decide)]

theorem looksInside (h : Trims es fs) (hinside : LooksInside fs) : LooksInside es := by
  obtain ⟨kind, hkind, hcases⟩ := hinside
  rw [h.get "type" (by decide) (by decide)] at hkind
  refine ⟨kind, hkind, hcases.imp_right (Or.imp_right fun ⟨habsent, hopen⟩ => ?_)⟩
  exact ⟨habsent, hopen.imp h.enum (h.isComposition ▸ ·)⟩

theorem narrows {label label' : Option Nat} (h : Trims es fs) :
    Narrows (.map label es) (.map label' fs) := by
  have hreference : reference? fs = reference? es := by
    rw [reference?, h.get "$ref" (by decide) (by decide), reference?]
  intro ref hr
  cases hr with
  | here href => exact .here (hreference ▸ href)
  | inside href huses hr =>
    rw [hreference] at href
    cases huses with
    | items hkind hitems =>
      rw [h.get "type" (by decide) (by decide)] at hkind
      rw [h.keys "items" (by decide) (by decide)] at hitems
      exact .inside href (.items hkind hitems) hr
    | member hinside hkey hmembers hs =>
      rw [h.composition?] at hkey
      have hne : ∀ other, other ∉ compositionKeys → _ ≠ other := fun other hother he =>
        hother (he ▸ (isFilled_of_composition? hkey).1)
      rw [h.keys _ (hne _ (by simp)) (hne _ (by simp))] at hmembers
      exact .inside href (.member (h.looksInside hinside) hkey hmembers hs) hr
    | property hinside hnone hp hs =>
      rw [h.composition?] at hnone
      obtain ⟨label, ps, key, s, hp', hs', hr'⟩ := h.properties _ _ _ _ hp hs ref hr
      exact .inside href (.property (h.looksInside hinside) hnone hp' hs') hr'
    | additional hinside hnone hs =>
      rw [h.composition?] at hnone
      rw [h.keys "additionalProperties" (by decide) (by decide)] at hs
      exact .inside href (.additional (h.looksInside hinside) hnone hs) hr

theorem put_enum (es : Entries) {v : Value} (hv : v.isFilled = true) :
    Trims es (es.put (.str "enum") v) := by
  refine ⟨fun key _ he => Entries.get?_put_of_ne he es v, fun hempty => ?_, ?_⟩
  · rw [Entries.get_put_self, hv] at hempty
    cases hempty
  · intro label ps key s hp hs ref hr
    rw [Entries.get?_put_of_ne (by decide)] at hp
    exact ⟨label, ps, key, s, hp, hs, hr⟩

theorem put_properties (es : Entries) :
    Trims es (es.put (.str "properties") (.ofEntries [])) := by
  refine ⟨fun key hp _ => Entries.get?_put_of_ne hp es _, fun hempty => ?_, ?_⟩
  · rwa [Entries.get_put_of_ne (by decide)] at hempty
  · intro label ps key s hp hs ref hr
    rw [Entries.get?_put_self] at hp
    cases hp
    cases hs

theorem adjust_properties (es : Entries) {f : Entries → Entries}
    (hf : ∀ ps : Entries, ∀ e ∈ f ps, ∀ ref, Refers e.2 ref → ∃ e' ∈ ps, Refers e'.2 ref) :
    Trims es (es.adjust (.str "properties") fun
      | .map l ps => .map l (f ps)
      | v => v) := by
  refine ⟨fun key hp _ => Entries.get?_adjust_of_ne hp es _, fun hempty => ?_, ?_⟩
  · rwa [Entries.get, Entries.get?_adjust_of_ne (by decide), ← Entries.get] at hempty
  · intro label ps key s hp hs ref hr
    rw [Entries.get?_adjust_self] at hp
    obtain ⟨v, hv, hp⟩ := Option.map_eq_some_iff.mp hp
    split at hp
    · rename_i l ps'
      cases hp
      obtain ⟨⟨key', s'⟩, hs', hr'⟩ := hf ps' (key, s) hs ref hr
      exact ⟨_, ps', key', s', hv, hs', hr'⟩
    · exact ⟨label, ps, key, s, hp ▸ hv, hs, hr⟩

end Trims

variable {schemas narrowed : Entries}

theorem Narrowed.adjust {f : Value → Value} (hf : ∀ v, Narrows v (f v)) (schemas : Entries)
    (key : Scalar) : Narrowed schemas (schemas.adjust key f) :=
  Entries.forall₂_adjust Narrows.refl hf schemas key

theorem Narrowed.modifyAt {path : List Scalar} {f : Entries → Entries}
    (hf : ∀ es : Entries, Trims es (es.modifyAt path f)) (schemas : Entries) (target : Scalar) :
    Narrowed schemas (schemas.modifyAt (target :: path) f) := by
  refine .adjust (fun v => ?_) schemas target
  split
  · exact (hf _).narrows
  · exact .refl _

def NarrowedApart (schemas narrowed : Entries) : Prop :=
  Narrowed schemas narrowed ∧ narrowed.Unlabelled

theorem NarrowedApart.trans {last : Entries} (h : NarrowedApart schemas narrowed)
    (h' : NarrowedApart narrowed last) : NarrowedApart schemas last :=
  ⟨h.1.trans h'.1, h'.2⟩

theorem not_refers_empty (label : Option Nat) (ref : String) : ¬ Refers (.map label []) ref := by
  intro h
  cases h with
  | here href => cases href
  | inside _ huses _ =>
    cases huses with
    | items _ h => cases h
    | member _ _ h _ => cases h
    | property _ _ h _ => cases h
    | additional _ _ h => cases h

section Writes

variable (hschemas : schemas.Unlabelled) (target key value : Scalar)
include hschemas

theorem narrowedApart_write {path : List Scalar} {f : Entries → Entries}
    (htrims : ∀ es : Entries, Trims es (es.modifyAt path f))
    (hf : ∀ es : Entries, es.Unlabelled → (f es).Unlabelled) :
    NarrowedApart schemas (schemas.write (target :: path) f) := by
  rw [hschemas.write_eq]
  exact ⟨.modifyAt htrims schemas target, hschemas.modifyAt hf _⟩

theorem narrowedApart_properties :
    NarrowedApart schemas (schemas.write [target] (·.put (.str "properties") (.ofEntries []))) :=
  narrowedApart_write hschemas target Trims.put_properties fun _ hes => hes.put rfl _

theorem narrowedApart_opened : NarrowedApart schemas (opened schemas target) := by
  unfold opened
  split
  · exact ⟨.refl schemas, hschemas⟩
  · exact narrowedApart_properties hschemas target

theorem narrowedApart_fresh : NarrowedApart schemas (schemas.write [target, .str "properties"]
    (·.put key (.ofEntries [(.str "enum", tagEnumeration value)]))) := by
  refine narrowedApart_write hschemas target (fun es => .adjust_properties es ?_)
    fun _ hes => hes.put rfl _
  intro ps e he ref hr
  rcases Entries.mem_put he with he | he
  · exact ⟨e, he, hr⟩
  · rw [he] at hr
    exact absurd ((Trims.put_enum [] rfl).narrows ref hr) (not_refers_empty none ref)

theorem narrowedApart_enumeration :
    NarrowedApart schemas (schemas.write [target, .str "properties", key]
      (·.put (.str "enum") (tagEnumeration value))) := by
  refine narrowedApart_write hschemas target (fun es => .adjust_properties es ?_)
    fun _ hes => hes.put rfl _
  intro ps e he ref hr
  have htrims (es : Entries) :
      Trims es (es.modifyAt [] (·.put (.str "enum") (tagEnumeration value))) :=
    .put_enum es rfl
  have hnarrowed := Narrowed.modifyAt htrims ps key
  obtain ⟨e', he', -, hnarrows⟩ := exists_left_of_forall₂ hnarrowed he
  exact ⟨e', he', hnarrows ref hr⟩

end Writes

theorem narrowTarget_narrows {target value : Scalar} {property : Value}
    (hschemas : schemas.Unlabelled)
    (h : narrowTarget schemas target property value = .ok narrowed) :
    NarrowedApart schemas narrowed := by
  obtain ⟨label, properties, key, -, -, rfl⟩ := narrowTarget_ok h
  have hopened := narrowedApart_opened hschemas target
  unfold tag
  split_ifs
  · exact hopened.trans (narrowedApart_enumeration hopened.2 target key value)
  · exact hopened.trans (narrowedApart_fresh hopened.2 target key value)

/-- Following the discriminators of a collection keeps its keys and brings no reference in. -/
theorem followDiscriminators_narrows {v : Value} {s t : Log} (hv : v.isUnlabelled = true)
    (h : Returns (followDiscriminators v) s narrowed t) : NarrowedApart v.members narrowed := by
  refine foldlM_narrow (fun schemas d _ next hschemas hd => ?_) (followDiscriminators_returns h)
    ⟨.refl _, Value.isUnlabelled_members hv⟩
  rw [Tagging.narrow] at hd
  split at hd
  · exact hschemas.trans (narrowTarget_narrows hschemas.2 hd)
  · cases hd
    exact hschemas

end ApiBindings.Schema
