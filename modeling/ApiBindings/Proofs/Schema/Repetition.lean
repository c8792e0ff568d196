import ApiBindings.Proofs.Schema.Frame
import Mathlib.Data.List.Induction

/-!
Following the discriminators of a collection a second time. Main statement: nothing changes then,
not even the order of the keys.
-/

namespace ApiBindings

namespace Entries

variable {es : Entries} {key other : Scalar} {v w : Value}

theorem put_comm (hapart : ∀ e ∈ es, e.1.isKey key = true → ¬ e.1.isKey other = true)
    (hfound : (es.find? other).isSome = true) :
    (es.put key v).put other w = (es.put other w).put key v := by
  induction es with
  | nil => cases hfound
  | cons e rest ih =>
    obtain ⟨k, u⟩ := e
    have hk := hapart _ List.mem_cons_self
    by_cases hkey : k.isKey key = true
    · have hother := hk hkey
      simp only [put, if_pos hkey, if_neg hother]
    · by_cases hother : k.isKey other = true
      · simp only [put, if_neg hkey, if_pos hother]
      · rw [find?, if_neg hother] at hfound
        have hrest := ih (fun e he => hapart e (List.mem_cons_of_mem _ he)) hfound
        simp only [put, if_neg hkey, if_neg hother, hrest]

theorem put_comm_of_ne {name name' : String} (h : name ≠ name')
    (hfound : (es.get? name').isSome = true) :
    (es.put (.str name) v).put (.str name') w = (es.put (.str name') w).put (.str name) v := by
  refine put_comm (fun e _ hkey hother => h ?_) hfound
  exact Scalar.str.inj ((Scalar.isKey_str.mp hkey).symm.trans (Scalar.isKey_str.mp hother))

namespace JsonKeys

variable (hes : es.JsonKeys) (hkey : key.isJson = true) (hother : other.isJson = true)
include hes hkey hother

theorem put_comm (hne : ¬ key.isKey other = true) (hfound : (es.find? other).isSome = true) :
    (es.put key v).put other w = (es.put other w).put key v := by
  refine Entries.put_comm (fun e he hek heo => hne ?_) hfound
  rwa [← Scalar.isKey_congr (hes e he) hkey hother hek]

theorem put_put (hsame : key.isKey other = true)
    (hfound : key = other ∨ (es.find? other).isSome = true) :
    (es.put key v).put other w = es.put other w := by
  induction es with
  | nil =>
    obtain rfl : key = other := hfound.resolve_right (by simp [find?])
    simp only [put, if_pos hsame]
  | cons e rest ih =>
    obtain ⟨k, u⟩ := e
    have hk : k.isJson = true := hes (k, u) List.mem_cons_self
    have hiff : k.isKey key = k.isKey other := by
      rw [Scalar.isKey_comm hk hkey, Scalar.isKey_congr hkey hother hk hsame,
        Scalar.isKey_comm hother hk]
    by_cases hko : k.isKey other = true
    · simp only [put, hiff, if_pos hko]
    · rw [find?, if_neg hko] at hfound
      have hrest := ih (fun e he => hes e (List.mem_cons_of_mem _ he)) hfound
      simp only [put, hiff, if_neg hko, hrest]

end JsonKeys

end Entries

namespace Schema

section Slots

variable {ps : Entries} {key other value last : Scalar} (hps : ps.JsonKeys)
  (hkey : key.isJson = true) (hother : other.isJson = true)
include hps hkey hother

/-- A tag looks at no more of a property than what an earlier tag has left in it. -/
theorem tagged_put :
    tagged (ps.put key (tagged ps key value)) other last = tagged ps other last := by
  by_cases hsame : key.isKey other = true
  · have hfound : (ps.put key (tagged ps key value)).find? other = some (tagged ps key value) := by
      rw [hps.find?_put hkey hother, if_pos hsame]
    have hkept : keptIn (ps.put key (tagged ps key value)) other =
        (keptIn ps key).put (.str "enum") (tagEnumeration value) := by
      refine keptIn_of_find? hfound ?_
      rw [reference?, Entries.get_put_of_ne (by decide), ← reference?, reference?_keptIn]
    have hsource : keptIn ps key = keptIn ps other := by
      rw [keptIn, hps.find?_congr hkey hother hsame, keptIn]
    rw [tagged, hkept, Entries.put_put, hsource, tagged]
  · rw [tagged, keptIn, hps.find?_put hkey hother, if_neg hsame, ← keptIn, tagged]

theorem isSome_find?_put (v : Value) (h : (ps.find? other).isSome = true) :
    ((ps.put key v).find? other).isSome = true := by
  rw [hps.find?_put hkey hother]
  split_ifs
  · rfl
  · exact h

end Slots

namespace Tagging

variable {d e : Tagging} {current next es ps : Entries} {key : Scalar}

def Passes (d : Tagging) (current : Entries) : Prop :=
  ∀ v, current.get? d.target = some v → v.isMap = false

/-- The tagging selects the schema `es`, which has the properties `ps`, by the property `key`. -/
structure Selects (d : Tagging) (current es ps : Entries) (key : Scalar) : Prop where
  target : current.get? d.target = some (.ofEntries es)
  properties : (es.get? "properties").getD (.ofEntries []) = .ofEntries ps
  property : d.property = .scalar key

def withProperties (d : Tagging) (current es qs : Entries) : Entries :=
  current.put (.str d.target) (.ofEntries (es.put (.str "properties") (.ofEntries qs)))

def narrowProperty (d : Tagging) (ps : Entries) (key : Scalar) : Entries :=
  ps.put key (tagged ps key d.value)

theorem Selects.not_passes (h : d.Selects current es ps key) : ¬ d.Passes current :=
  fun hpasses => nomatch hpasses _ h.target

theorem Passes.narrow (h : d.Passes current) : d.narrow current = .ok current := by
  rw [Tagging.narrow]
  split
  · rename_i label es hfound
    cases h _ hfound
  · rfl

theorem Selects.narrow (hcurrent : current.Unlabelled) (h : d.Selects current es ps key) :
    d.narrow current = .ok (d.withProperties current es (d.narrowProperty ps key)) := by
  have hopened : ∃ fs, (opened current (.str d.target)).get? d.target = some (.ofEntries fs) ∧
      fs.get? "properties" = some (.ofEntries ps) := by
    have hproperties := h.properties
    cases hfound : es.get? "properties" with
    | none =>
      rw [hfound] at hproperties
      cases hproperties
      rw [opened_eq_put hcurrent h.target hfound]
      exact ⟨_, Entries.get?_put_self .., Entries.get?_put_self ..⟩
    | some v =>
      rw [hfound, Option.getD_some] at hproperties
      subst hproperties
      rw [opened, propertiesOf?_eq, h.target, Option.bind_some, Value.ofEntries, Value.members,
        hfound]
      exact ⟨es, h.target, hfound⟩
  obtain ⟨fs, hfs, hproperties⟩ := hopened
  obtain ⟨next, hnext⟩ : ∃ next, d.narrow current = .ok next := by
    refine ⟨tag (opened current (.str d.target)) ps (.str d.target) key d.value, ?_⟩
    rw [Tagging.narrow, ← Entries.get?, h.target]
    dsimp only [Value.ofEntries]
    rw [narrowTarget_eq, propertiesOf?_eq, hfs, Option.bind_some, Value.ofEntries, Value.members,
      hproperties, h.property]
    rfl
  rcases narrow_cases hcurrent hnext with ⟨-, hpasses⟩ | ⟨es', ps', key', htarget, hps, hkey, heq⟩
  · exact absurd hpasses h.not_passes
  · cases htarget.symm.trans h.target
    cases hps.symm.trans h.properties
    cases hkey.symm.trans h.property
    rw [hnext, heq]
    rfl

theorem passes_or_selects (hcurrent : current.Unlabelled) (h : d.narrow current = .ok next) :
    (d.Passes current ∧ next = current) ∨ ∃ es ps key, d.Selects current es ps key ∧
      next = d.withProperties current es (d.narrowProperty ps key) := by
  rcases narrow_cases hcurrent h with ⟨rfl, hpasses⟩ | ⟨es, ps, key, htarget, hps, hkey, rfl⟩
  · exact .inl ⟨hpasses, rfl⟩
  · exact .inr ⟨es, ps, key, ⟨htarget, hps, hkey⟩, rfl⟩

section After

variable {es' ps' qs : Entries} {key' : Scalar}

theorem get?_withProperties_of_ne {name : String} (h : name ≠ d.target) :
    (d.withProperties current es qs).get? name = current.get? name :=
  Entries.get?_put_of_ne h _ _

theorem Selects.of_ne (h : e.Selects current es' ps' key') (hne : e.target ≠ d.target) :
    e.Selects (d.withProperties current es qs) es' ps' key' :=
  ⟨by rw [get?_withProperties_of_ne hne, h.target], h.properties, h.property⟩

theorem Selects.of_eq (h : e.Selects current es ps key) (htarget : e.target = d.target) :
    e.Selects (d.withProperties current es qs) (es.put (.str "properties") (.ofEntries qs)) qs
      key := by
  refine ⟨?_, ?_, h.property⟩
  · rw [withProperties, htarget, Entries.get?_put_self]
  · rw [Entries.get?_put_self, Option.getD_some]

theorem withProperties_withProperties (htarget : e.target = d.target) (qs' : Entries) :
    e.withProperties (d.withProperties current es qs)
      (es.put (.str "properties") (.ofEntries qs)) qs' = d.withProperties current es qs' := by
  rw [withProperties, withProperties, withProperties, htarget, Entries.put_put, Entries.put_put]

theorem Passes.of_narrow (hcurrent : current.Unlabelled) (hnext : d.narrow current = .ok next)
    (h : e.Passes current) : e.Passes next := by
  rcases passes_or_selects hcurrent hnext with ⟨-, rfl⟩ | ⟨es, ps, key, hselects, rfl⟩
  · exact h
  · intro v hv
    have hne : e.target ≠ d.target := by
      intro heq
      rw [Passes, heq] at h
      exact hselects.not_passes h
    exact h v (by rwa [get?_withProperties_of_ne hne] at hv)

end After

/-- The tagging passes over the collection, or the property that it narrows is there. -/
def Settled (d : Tagging) (current : Entries) : Prop :=
  d.Passes current ∨ ∃ es ps key, d.Selects current es ps key ∧ (ps.find? key).isSome = true

def OfJson (d : Tagging) : Prop :=
  d.value.isJson = true ∧ d.property.Throughout (fun s => s.isJson = true) fun _ => True

theorem OfJson.property (hd : d.OfJson) (h : d.Selects current es ps key) : key.isJson = true := by
  have hproperty := hd.2
  rw [h.property] at hproperty
  exact Value.throughout_scalar.mp hproperty

variable (hcurrent : JsonCollection current) (hd : d.OfJson) (hnext : d.narrow current = .ok next)
include hcurrent hd hnext

theorem settled_of_narrow : d.Settled next := by
  rcases passes_or_selects hcurrent.unlabelled hnext with ⟨hpasses, rfl⟩ | ⟨es, ps, key, h, rfl⟩
  · exact .inl hpasses
  · have hkey := hd.property h
    refine .inr ⟨_, _, key, h.of_eq rfl, ?_⟩
    rw [narrowProperty, (hcurrent.propertyKeys h.target h.properties).find?_put hkey hkey,
      if_pos ((Scalar.isKey_iff hkey hkey).mpr rfl)]
    rfl

theorem Settled.of_narrow (he : e.OfJson) (h : e.Settled current) : e.Settled next := by
  rcases passes_or_selects hcurrent.unlabelled hnext with ⟨-, rfl⟩ | ⟨es, ps, key, hselects, rfl⟩
  · exact h
  · rcases h with hpasses | ⟨es', ps', key', hselects', hfound⟩
    · exact .inl (hpasses.of_narrow hcurrent.unlabelled hnext)
    · by_cases htarget : e.target = d.target
      · cases hselects'.target.symm.trans (htarget ▸ hselects.target)
        cases hselects'.properties.symm.trans hselects.properties
        refine .inr ⟨_, _, key', hselects'.of_eq htarget, ?_⟩
        exact isSome_find?_put (hcurrent.propertyKeys hselects.target hselects.properties)
          (hd.property hselects) (he.property hselects') _ hfound
      · exact .inr ⟨es', ps', key', hselects'.of_ne htarget, hfound⟩

theorem narrow_again : d.narrow next = .ok next := by
  rcases passes_or_selects hcurrent.unlabelled hnext with ⟨hpasses, rfl⟩ | ⟨es, ps, key, h, rfl⟩
  · exact hpasses.narrow
  · have hkey := hd.property h
    have hps := hcurrent.propertyKeys h.target h.properties
    have hunlabelled := (hcurrent.narrow hd hnext).unlabelled
    rw [(h.of_eq rfl).narrow hunlabelled, withProperties_withProperties rfl, narrowProperty,
      narrowProperty, tagged_put hps hkey hkey, hps.put_put hkey hkey
        ((Scalar.isKey_iff hkey hkey).mpr rfl) (.inl rfl)]

/-- A tag that is written where another one is settled either is overwritten by it, or leaves it as
it would be. -/
theorem narrow_swap {other : Entries} (he : e.OfJson) (hsettled : e.Settled current)
    (hother : e.narrow current = .ok other) :
    e.narrow next = .ok other ∨ ∃ both, e.narrow next = .ok both ∧ d.narrow other = .ok both := by
  have hunlabelled := (hcurrent.narrow hd hnext).unlabelled
  have hunlabelled' := (hcurrent.narrow he hother).unlabelled
  rcases passes_or_selects hcurrent.unlabelled hnext with ⟨-, rfl⟩ | ⟨es, ps, key, h, rfl⟩
  · exact .inl hother
  · rcases hsettled with hpasses | ⟨es', ps', key', h', hfound⟩
    · cases hother.symm.trans hpasses.narrow
      exact .inr ⟨_, (hpasses.of_narrow hcurrent.unlabelled hnext).narrow, hnext⟩
    · cases hother.symm.trans (h'.narrow hcurrent.unlabelled)
      -- the tags meet in one property, in two properties of a schema, or in two schemas
      by_cases htarget : e.target = d.target
      · cases h'.target.symm.trans (htarget ▸ h.target)
        cases h'.properties.symm.trans h.properties
        have hps := hcurrent.propertyKeys h.target h.properties
        have hkey := hd.property h
        have hkey' := he.property h'
        rw [(h'.of_eq htarget).narrow hunlabelled, withProperties_withProperties htarget,
          narrowProperty, narrowProperty, tagged_put hps hkey hkey']
        by_cases hsame : key.isKey key' = true
        · rw [hps.put_put hkey hkey' hsame (.inr hfound), narrowProperty, withProperties,
            withProperties, htarget]
          exact .inl rfl
        · refine .inr ⟨_, rfl, ?_⟩
          rw [(h.of_eq htarget.symm).narrow hunlabelled',
            withProperties_withProperties htarget.symm,
            narrowProperty, narrowProperty, tagged_put hps hkey' hkey,
            hps.put_comm hkey hkey' hsame hfound, withProperties, withProperties, htarget]
      · refine .inr ⟨_, (h'.of_ne htarget).narrow hunlabelled, ?_⟩
        rw [(h.of_ne (Ne.symm htarget)).narrow hunlabelled', withProperties, withProperties,
          withProperties, withProperties, Entries.put_comm_of_ne (Ne.symm htarget)]
        rw [h'.target]
        rfl

end Tagging

section Run

open Tagging

variable {taggings : List Tagging} {d : Tagging} {current next last : Entries}

/-- A tag that is written first and last need not be written first. -/
theorem foldlM_narrow_swap (hcurrent : JsonCollection current) (hd : d.OfJson)
    (htaggings : ∀ e ∈ taggings, e.OfJson ∧ e.Settled current)
    (hnext : d.narrow current = .ok next) {between : Entries}
    (hbetween : taggings.foldlM narrow current = .ok between)
    (hlast : d.narrow between = .ok last) : (taggings ++ [d]).foldlM narrow next = .ok last := by
  -- the first tag is moved behind the others one by one
  induction taggings generalizing current next with
  | nil =>
    cases pure_eq_ok.mp hbetween
    cases hnext.symm.trans hlast
    rw [List.nil_append, List.foldlM_cons, narrow_again hcurrent hd hnext]
    rfl
  | cons e taggings ih =>
    rw [List.forall_mem_cons] at htaggings
    obtain ⟨⟨he, hsettled⟩, htaggings⟩ := htaggings
    rw [List.foldlM_cons] at hbetween
    obtain ⟨other, hother, hbetween⟩ := bind_eq_ok.mp hbetween
    have hsettled' : ∀ e ∈ taggings, e.OfJson ∧ e.Settled other := fun e' he' =>
      (htaggings e' he').imp_right (Settled.of_narrow hcurrent he hother (htaggings e' he').1)
    rw [List.cons_append, List.foldlM_cons]
    rcases narrow_swap hcurrent hd hnext he hsettled hother with hkept | ⟨both, hboth, hswapped⟩
    · rw [hkept]
      change (taggings ++ [d]).foldlM narrow other = .ok last
      rw [List.foldlM_append, hbetween]
      change [d].foldlM narrow between = .ok last
      rw [List.foldlM_cons, hlast]
      rfl
    · rw [hboth]
      exact ih (hcurrent.narrow he hother) hsettled' hswapped hbetween

/-- After a run all of its taggings are settled, and a second run leaves the collection as it is. -/
theorem foldlM_narrow_again (hcurrent : JsonCollection current)
    (htaggings : ∀ d ∈ taggings, d.OfJson) (h : taggings.foldlM narrow current = .ok last) :
    JsonCollection last ∧ (∀ d ∈ taggings, d.Settled last) ∧
      taggings.foldlM narrow last = .ok last := by
  induction taggings using List.reverseRecOn generalizing last with
  | nil =>
    cases pure_eq_ok.mp h
    exact ⟨hcurrent, List.forall_mem_nil _, rfl⟩
  | append_singleton taggings d ih =>
    rw [List.foldlM_append] at h
    obtain ⟨before, hbefore, h⟩ := bind_eq_ok.mp h
    obtain ⟨last', hlast, h⟩ := bind_eq_ok.mp h
    cases pure_eq_ok.mp h
    have hd := htaggings d (List.mem_append_right _ List.mem_cons_self)
    have hothers (e : Tagging) (he : e ∈ taggings) := htaggings e (List.mem_append_left _ he)
    obtain ⟨hjson, hsettled, hagain⟩ := ih hothers hbefore
    refine ⟨hjson.narrow hd hlast, fun e he => ?_, ?_⟩
    · rcases List.mem_append.mp he with he | he
      · exact Settled.of_narrow hjson hd hlast (hothers e he) (hsettled e he)
      · rw [List.mem_singleton.mp he]
        exact settled_of_narrow hjson hd hlast
    · exact foldlM_narrow_swap hjson hd (fun e he => ⟨hothers e he, hsettled e he⟩) hlast hagain
        hlast

def Follows (step : Entries → Telling Entries) (taggings : List Tagging) : Prop :=
  ∀ schemas s narrowed t, Returns (step schemas) s narrowed t →
    ∀ current next, taggings.foldlM narrow current = .ok next →
      ∀ s', ∃ t', Returns (step current) s' next t'

theorem follows_pure : Follows pure [] := by
  intro schemas s narrowed t _ current next h s'
  cases pure_eq_ok.mp h
  exact ⟨s', returns_pure.mpr ⟨rfl, rfl⟩⟩

theorem follows_foldlM {α : Type} {f : Entries → α → Telling Entries} {g : α → List Tagging}
    {xs : List α} (hf : ∀ x ∈ xs, Follows (f · x) (g x)) :
    Follows (fun schemas => xs.foldlM f schemas) (xs.flatMap g) := by
  induction xs with
  | nil => exact follows_pure
  | cons x xs ih =>
    intro schemas s narrowed t hrun current next hnext s'
    rw [List.forall_mem_cons] at hf
    dsimp only at hrun ⊢
    rw [List.foldlM_cons] at hrun ⊢
    rw [List.flatMap_cons, List.foldlM_append] at hnext
    obtain ⟨middle, u, hx, hrest⟩ := returns_bind.mp hrun
    obtain ⟨middle', hmiddle, hnext⟩ := bind_eq_ok.mp hnext
    obtain ⟨u', hx'⟩ := hf.1 _ _ _ _ hx _ _ hmiddle s'
    obtain ⟨t', hrest'⟩ := ih hf.2 _ _ _ _ hrest _ _ hnext u'
    exact ⟨t', returns_bind.mpr ⟨_, u', hx', hrest'⟩⟩

theorem follows_followMapping (d : Discriminator) (e : Scalar × Value) :
    Follows (followMapping d · e.1 e.2) (ofPair? d.property e).toList := by
  intro schemas s narrowed t hrun current next hnext s'
  obtain ⟨d', hd', -⟩ := followMapping_returns hrun
  have hpair := hd'
  rw [show ofPair? d.property e = some d' from hd', Option.toList_some, List.foldlM_cons] at hnext
  obtain ⟨next', hnext', hnext⟩ := bind_eq_ok.mp hnext
  cases pure_eq_ok.mp hnext
  rw [ofPair?] at hpair
  split at hpair
  · rename_i text htext
    obtain ⟨path, hpath, rfl⟩ := Option.map_eq_some_iff.mp hpair
    dsimp only at htext hnext' ⊢
    rw [followMapping, htext]
    rw [narrow] at hnext'
    refine exists_returns_lift_bind ⟨text, rfl, ?_⟩
    rw [hpath]
    dsimp only
    split
    · rename_i hfound
      rw [hfound] at hnext'
      exact exists_returns_lift_bind ⟨next, hnext', _, rfl⟩
    · rename_i hmissing
      split at hnext'
      · rename_i hfound
        exact absurd hfound (hmissing _ _)
      · cases hnext'
        exact ⟨_, rfl⟩
  · cases hpair

theorem follows_followSchema (name : Scalar) (schema : Value) :
    Follows (followSchema · name schema) (ofSchema schema) := by
  cases schema with
  | map label es =>
    by_cases href : (reference? es).isSome = true
    · have hpure : (followSchema · name (.map label es)) = pure := by
        funext schemas
        rw [followSchema, if_pos href]
      rw [hpure, ofSchema, if_pos href]
      exact follows_pure
    · intro schemas s narrowed t hrun current next hnext s'
      rw [ofSchema, if_neg href] at hnext
      dsimp only at hrun hnext ⊢
      rw [followSchema, if_neg href] at hrun ⊢
      obtain ⟨discriminator, hdiscriminator, hrun⟩ := returns_lift_bind.mp hrun
      cases Value.entriesOrNone_ok hdiscriminator
      refine exists_returns_lift_bind ⟨_, hdiscriminator, ?_⟩
      dsimp only at hrun ⊢
      split_ifs at hrun ⊢ with hfilled
      · obtain ⟨mapping, hmapping, hrun⟩ := returns_lift_bind.mp hrun
        cases Value.entries_ok hmapping
        rw [List.filterMap_eq_flatMap_toList] at hnext
        refine exists_returns_lift_bind ⟨_, hmapping, ?_⟩
        exact follows_foldlM (fun e _ => follows_followMapping _ e) _ _ _ _ hrun _ _ hnext s'
      · rw [Value.members_of_not_isFilled hfilled] at hnext
        exact follows_pure _ _ _ _ hrun _ _ hnext s'
  | _ => exact follows_pure

theorem follows_followSchemas (source : Entries) :
    Follows (fun schemas => source.foldlM (fun acc e => followSchema acc e.1 e.2) schemas)
      (ofSchemas source) :=
  follows_foldlM fun e _ => follows_followSchema e.1 e.2

theorem followSchema_withProperties (schemas : Entries) (name : Scalar) (v properties : Value) :
    followSchema schemas name (mapEntries (·.put (.str "properties") properties) v) =
      followSchema schemas name v := by
  cases v with
  | map label es =>
    have hget (key : String) (h : key ≠ "properties") := Entries.get_put_of_ne h es properties
    rw [mapEntries, followSchema, followSchema, reference?, hget _ (by decide),
      hget _ (by decide), reference?]
  | _ => rfl

theorem foldlM_adjust {f : Entries → Scalar → Value → Telling Entries} {g : Value → Value}
    (hfg : ∀ schemas name v, f schemas name (g v) = f schemas name v) (es : Entries) (key : Scalar)
    (schemas : Entries) : (es.adjust key g).foldlM (fun acc e => f acc e.1 e.2) schemas =
      es.foldlM (fun acc e => f acc e.1 e.2) schemas := by
  induction es generalizing schemas with
  | nil => rfl
  | cons e rest ih =>
    obtain ⟨k, v⟩ := e
    rw [Entries.adjust]
    split_ifs
    · rw [List.foldlM_cons, List.foldlM_cons, hfg]
    · rw [List.foldlM_cons, List.foldlM_cons]
      exact bind_congr fun acc => ih acc

theorem followSchemas_narrowed (hcurrent : JsonCollection current)
    (htaggings : ∀ d ∈ taggings, d.OfJson) (h : taggings.foldlM narrow current = .ok last)
    (schemas : Entries) : last.foldlM (fun acc e => followSchema acc e.1 e.2) schemas =
      current.foldlM (fun acc e => followSchema acc e.1 e.2) schemas := by
  refine (foldlM_narrow (I := fun es => JsonCollection es ∧ ∀ schemas,
    es.foldlM (fun acc e => followSchema acc e.1 e.2) schemas =
      current.foldlM (fun acc e => followSchema acc e.1 e.2) schemas)
    (fun es d hd next ⟨hes, hsame⟩ hnext => ?_) h ⟨hcurrent, fun _ => rfl⟩).2 schemas
  refine ⟨hes.narrow (htaggings d hd) hnext, fun schemas => ?_⟩
  rcases passes_or_selects hes.unlabelled hnext with ⟨-, rfl⟩ | ⟨fs, ps, key, hselects, rfl⟩
  · exact hsame schemas
  · rw [← hsame schemas, withProperties]
    have hput : es.adjust (.str d.target)
        (mapEntries (·.put (.str "properties") (.ofEntries (d.narrowProperty ps key)))) =
        es.put (.str d.target) (.ofEntries (fs.put (.str "properties")
          (.ofEntries (d.narrowProperty ps key)))) :=
      Entries.adjust_eq_put hselects.target _
    rw [← hput]
    exact foldlM_adjust (fun schemas name v => followSchema_withProperties schemas name v _) _ _ _

/-- Following the discriminators of a collection in which they have been followed changes
nothing. -/
theorem followDiscriminators_again {v : Value} {s t : Log} (hv : v.isJson = true)
    (h : Returns (followDiscriminators v) s last t) (s' : Log) :
    ∃ t', Returns (followDiscriminators (.ofEntries last)) s' last t' := by
  have htaggings (d : Tagging) (hd : d ∈ ofSchemas v.members) : d.OfJson :=
    Tagging.isJson_of_mem hv hd
  have hnarrowed := followDiscriminators_returns h
  have hagain := (foldlM_narrow_again (.members hv) htaggings hnarrowed).2.2
  rw [followDiscriminators] at h
  obtain ⟨source, hsource, hrun⟩ := returns_lift_bind.mp h
  cases Value.entriesOrNone_ok hsource
  obtain ⟨t', ht'⟩ := follows_followSchemas _ _ _ _ _ hrun _ _ hagain s'
  have hentries : (Value.ofEntries last).entriesOrNone = .ok last := by
    rw [Value.entriesOrNone]
    split_ifs with hfilled
    · rfl
    · rw [← Value.members_of_not_isFilled hfilled]
      rfl
  rw [followDiscriminators]
  refine ⟨t', returns_lift_bind.mpr ⟨last, hentries, ?_⟩⟩
  rw [followSchemas_narrowed (.members hv) htaggings hnarrowed]
  exact ht'

end Run

section Examples

/-- Two kinds that select each other and themselves by the same property, which is a reference in
one of them and missing in the other. -/
def crossedKinds : Value :=
  let mapped (pairs : List (String × String)) : Scalar × Value :=
    (.str "discriminator", .ofEntries [
      (.str "propertyName", .str "kind"),
      (.str "mapping", .ofEntries (pairs.map fun p =>
        (.str p.1, .str ("#/components/schemas/" ++ p.2))))])
  .ofEntries [
    (.str "Pet", .ofEntries [mapped [("pet", "Pet"), ("cat", "Cat"), ("any", "Pet")]]),
    (.str "Cat", .ofEntries [mapped [("tom", "Cat"), ("beast", "Pet")],
      (.str "properties", .ofEntries [(.str "kind", .ofEntries [
        (.str "$ref", .str "#/components/schemas/Kind")])])])]

theorem followDiscriminators_again_crossedKinds : crossedKinds.isJson = true ∧
    ∃ narrowed log, Returns (followDiscriminators crossedKinds) [] narrowed log ∧
      ∃ log', Returns (followDiscriminators (.ofEntries narrowed)) [] narrowed log' := by
  have hjson : crossedKinds.isJson = true := by decide
  obtain ⟨narrowed, log, hrun⟩ : ∃ narrowed log,
      (followDiscriminators crossedKinds).run.run [] = (.ok narrowed, log) :=
    exists_of_isSome (by decide +kernel)
  exact ⟨hjson, narrowed, log, hrun, followDiscriminators_again hjson hrun []⟩

end Examples

end Schema

end ApiBindings
