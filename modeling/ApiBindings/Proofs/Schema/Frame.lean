import ApiBindings.Proofs.Schema.TagValues

/-!
What following the discriminators leaves alone. Main statement: the schemas keep their places, and
in a target nothing is touched but the properties of its tags, which keep all but their
enumerations.
-/

namespace ApiBindings.Schema

open Entries (SameBut)

variable {schemas narrowed : Entries} {target : String} {key value : Scalar}

def keptIn (properties : Entries) (key : Scalar) : Entries :=
  match properties.find? key with
  | some (.map _ es) => if (reference? es).isNone then es else []
  | _ => []

def tagged (properties : Entries) (key value : Scalar) : Value :=
  .ofEntries ((keptIn properties key).put (.str "enum") (tagEnumeration value))

theorem reference?_keptIn (properties : Entries) (key : Scalar) :
    reference? (keptIn properties key) = none := by
  unfold keptIn
  split
  · split_ifs with h
    · exact Option.isNone_iff_eq_none.mp h
    · rfl
  · rfl

theorem keptIn_of_find? {properties es : Entries} {label : Option Nat}
    (hfound : properties.find? key = some (.map label es)) (h : reference? es = none) :
    keptIn properties key = es := by
  rw [keptIn, hfound]
  exact if_pos (Option.isNone_iff_eq_none.mpr h)

theorem keptIn_of_not_hasRoom {properties : Entries} (h : ¬ hasRoom properties key = true) :
    keptIn properties key = [] := by
  unfold hasRoom at h
  unfold keptIn
  split
  · rename_i label es hfound
    rw [hfound] at h
    exact if_neg h
  · rfl

section Step

variable {es ps : Entries} (hschemas : schemas.Unlabelled)
  (htarget : schemas.get? target = some (.ofEntries es))
include hschemas htarget

theorem tag_eq_put (hproperties : es.get? "properties" = some (.ofEntries ps)) :
    tag schemas ps (.str target) key value = schemas.put (.str target)
      (.ofEntries (es.put (.str "properties")
        (.ofEntries (ps.put key (tagged ps key value))))) := by
  have hinside (f : Entries → Entries) : schemas.modifyAt [.str target, .str "properties"] f =
      schemas.put (.str target) (.ofEntries (es.put (.str "properties") (.ofEntries (f ps)))) := by
    rw [modifyAt_cons, Entries.adjust_eq_put htarget, Value.ofEntries, mapEntries, modifyAt_cons,
      Entries.adjust_eq_put hproperties]
    rfl
  rw [tag, tagged]
  split_ifs with hroom
  · rw [hschemas.write_eq]
    change schemas.modifyAt [.str target, .str "properties"] (·.modifyAt [key] _) = _
    rw [hinside, modifyAt_cons]
    unfold hasRoom at hroom
    split at hroom
    · rename_i label qs hfound
      have hes : es.Unlabelled := (Value.isUnlabelled_map.mp (hschemas.find? htarget)).2
      have hps : ps.Unlabelled := (Value.isUnlabelled_map.mp (hes.find? hproperties)).2
      obtain ⟨rfl, -⟩ := Value.isUnlabelled_map.mp (hps.find? hfound)
      rw [Entries.adjust_eq_put hfound, keptIn_of_find? hfound
        (Option.isNone_iff_eq_none.mp hroom)]
      rfl
    · cases hroom
  · rw [hschemas.write_eq, hinside, keptIn_of_not_hasRoom hroom]
    rfl

theorem opened_eq_put (hproperties : es.get? "properties" = none) :
    opened schemas (.str target) = schemas.put (.str target)
      (.ofEntries (es.put (.str "properties") (.ofEntries []))) := by
  have hnone : propertiesOf? schemas (.str target) = none := by
    rw [propertiesOf?_eq, htarget]
    exact hproperties
  rw [opened, hnone]
  dsimp only
  rw [hschemas.write_eq, modifyAt_cons, Entries.adjust_eq_put htarget]
  rfl

/-- One tagging changes one property of its target, which gets properties if it has none. -/
theorem narrowTarget_eq_put {property : Value}
    (h : narrowTarget schemas (.str target) property value = .ok narrowed) :
    ∃ ps key, (es.get? "properties").getD (.ofEntries []) = .ofEntries ps ∧
      property = .scalar key ∧ narrowed = schemas.put (.str target)
        (.ofEntries (es.put (.str "properties")
          (.ofEntries (ps.put key (tagged ps key value))))) := by
  obtain ⟨label, ps, key, hproperties, hkey, rfl⟩ := narrowTarget_ok h
  rw [propertiesOf?_eq] at hproperties
  have hes : es.Unlabelled := (Value.isUnlabelled_map.mp (hschemas.find? htarget)).2
  cases hfound : es.get? "properties" with
  | none =>
    have hopened := opened_eq_put hschemas htarget hfound
    rw [hopened, Entries.get?_put_self, Option.bind_some, Value.ofEntries, Value.members,
      Entries.get?_put_self] at hproperties
    cases hproperties
    refine ⟨[], key, rfl, hkey, ?_⟩
    have hunlabelled : (opened schemas (.str target)).Unlabelled :=
      (narrowedApart_opened hschemas (.str target)).2
    rw [hopened] at hunlabelled ⊢
    rw [tag_eq_put hunlabelled (Entries.get?_put_self ..) (Entries.get?_put_self ..),
      Entries.put_put, Entries.put_put]
  | some v =>
    have hopened : opened schemas (.str target) = schemas := by
      rw [opened, propertiesOf?_eq, htarget, Option.bind_some, Value.ofEntries, Value.members,
        hfound]
    rw [hopened, htarget, Option.bind_some, Value.ofEntries, Value.members, hfound] at hproperties
    cases hproperties
    obtain ⟨rfl, -⟩ := Value.isUnlabelled_map.mp (hes.find? hfound)
    refine ⟨ps, key, rfl, hkey, ?_⟩
    rw [hopened, tag_eq_put hschemas htarget hfound]

end Step

theorem lastValue?_concat (taggings : List Tagging) (d : Tagging) (target : String) (key : Scalar) :
    lastValue? (taggings ++ [d]) target key =
      (d.valueAt? target key).or (lastValue? taggings target key) := by
  rw [lastValue?, lastValue?, List.filterMap_append, List.getLast?_append]
  cases hd : d.valueAt? target key <;> simp [hd]

theorem Tagging.valueAt?_of_ne {d : Tagging} (h : d.target ≠ target) :
    d.valueAt? target key = none := by
  unfold Tagging.valueAt?
  split
  · exact if_neg fun hd => h hd.1
  · rfl

theorem lastValue?_of_ne {taggings : List Tagging} (h : ∀ d ∈ taggings, d.target ≠ target) :
    lastValue? taggings target key = none := by
  rw [lastValue?, List.filterMap_eq_nil_iff.mpr fun d hd => Tagging.valueAt?_of_ne (h d hd)]
  rfl

structure FramedProperties (taggings : List Tagging) (target : String) (ps qs : Entries) :
    Prop where
  keys : ∃ new, qs.keys = ps.keys ++ new ∧
    ∀ key ∈ new, ∃ d ∈ taggings, d.target = target ∧ d.property = .scalar key
  others : ∀ key, key.isJson = true → lastValue? taggings target key = none →
    qs.find? key = ps.find? key
  tagged : ∀ key last, key.isJson = true → lastValue? taggings target key = some last →
    ∃ fs, qs.find? key = some (.ofEntries fs) ∧ SameBut "enum" (keptIn ps key) fs ∧
      fs.get? "enum" = some (tagEnumeration last)

namespace FramedProperties

variable {taggings : List Tagging} {ps qs : Entries} {d : Tagging}

theorem refl (h : ∀ d ∈ taggings, d.target ≠ target) (ps : Entries) :
    FramedProperties taggings target ps ps where
  keys := ⟨[], (List.append_nil _).symm, List.forall_mem_nil _⟩
  others _ _ _ := rfl
  tagged key last _ hlast := by
    rw [lastValue?_of_ne h] at hlast
    cases hlast

theorem keptIn_eq (h : FramedProperties taggings target ps qs) (hkey : key.isJson = true) :
    (lastValue? taggings target key = none ∧ keptIn qs key = keptIn ps key) ∨
      SameBut "enum" (keptIn ps key) (keptIn qs key) ∧
        ((keptIn qs key).get? "enum").isSome = true := by
  cases hlast : lastValue? taggings target key with
  | none => exact .inl ⟨rfl, by rw [keptIn, h.others key hkey hlast, keptIn]⟩
  | some last =>
    obtain ⟨fs, hfs, hsame, henum⟩ := h.tagged key last hkey hlast
    have hplain : reference? fs = none := by
      rw [← reference?_keptIn ps key, reference?, reference?, hsame.get (by decide)]
    rw [keptIn_of_find? hfs hplain, henum]
    exact .inr ⟨hsame, rfl⟩

theorem step (h : FramedProperties taggings target ps qs) (htarget : d.target = target)
    (hproperty : d.property = .scalar key) (hkey : key.isJson = true) (hqs : qs.JsonKeys) :
    FramedProperties (taggings ++ [d]) target ps (qs.put key (Schema.tagged qs key d.value)) where
  keys := by
    obtain ⟨new, hnew, hall⟩ := h.keys
    have hold : ∀ key ∈ new, ∃ d' ∈ taggings ++ [d], d'.target = target ∧
        d'.property = .scalar key := fun key hkey =>
      (hall key hkey).imp fun d' hd' => ⟨List.mem_append_left _ hd'.1, hd'.2⟩
    rw [Entries.keys_put]
    split_ifs
    · exact ⟨new, hnew, hold⟩
    · refine ⟨new ++ [key], by rw [hnew, List.append_assoc], fun k hk => ?_⟩
      rcases List.mem_append.mp hk with hk | hk
      · exact hold k hk
      · rw [List.mem_singleton.mp hk]
        exact ⟨d, List.mem_append_right _ List.mem_cons_self, htarget, hproperty⟩
  others k hk hlast := by
    rw [lastValue?_concat, Option.or_eq_none_iff, Tagging.valueAt?, hproperty] at hlast
    have hne : ¬ key.isKey k = true := fun heq => by simp [htarget, heq] at hlast
    rw [hqs.find?_put hkey hk, if_neg hne, h.others k hk hlast.2]
  tagged k last hk hlast := by
    rw [lastValue?_concat, Tagging.valueAt?, hproperty] at hlast
    simp only [htarget, true_and] at hlast
    rw [hqs.find?_put hkey hk]
    -- the property of this tag gets its value, any other one keeps what it had last
    split_ifs at hlast ⊢ with heq
    · obtain rfl : d.value = last := by simpa using hlast
      have hsame : keptIn qs key = keptIn qs k := by
        rw [keptIn, hqs.find?_congr hkey hk heq, keptIn]
      refine ⟨(keptIn qs k).put (.str "enum") (tagEnumeration d.value),
        by rw [Schema.tagged, hsame],
        ?_, Entries.get?_put_self ..⟩
      rcases h.keptIn_eq hk with ⟨-, hkept⟩ | ⟨hkept, henum⟩
      · rw [hkept]
        exact .put ..
      · exact hkept.put_trans henum _
    · exact h.tagged k last hk (by simpa using hlast)

theorem pass (h : FramedProperties taggings target ps qs) (hd : d.target ≠ target) :
    FramedProperties (taggings ++ [d]) target ps qs where
  keys := by
    obtain ⟨new, hnew, hall⟩ := h.keys
    exact ⟨new, hnew, fun key hkey =>
      (hall key hkey).imp fun d' hd' => ⟨List.mem_append_left _ hd'.1, hd'.2⟩⟩
  others k hk hlast := by
    rw [lastValue?_concat, Tagging.valueAt?_of_ne hd, Option.none_or] at hlast
    exact h.others k hk hlast
  tagged k last hk hlast := by
    rw [lastValue?_concat, Tagging.valueAt?_of_ne hd, Option.none_or] at hlast
    exact h.tagged k last hk hlast

end FramedProperties

structure FramedTarget (taggings : List Tagging) (target : String) (es fs : Entries) : Prop where
  selected : ∃ d ∈ taggings, d.target = target
  keywords : SameBut "properties" es fs
  properties : ∃ ps qs, (es.get? "properties").getD (.ofEntries []) = .ofEntries ps ∧
    fs.get? "properties" = some (.ofEntries qs) ∧ FramedProperties taggings target ps qs

/-- A schema before and after some taggings. What is no mapping cannot be narrowed. -/
inductive FramedSchema (taggings : List Tagging) (target : String) : Value → Value → Prop
  | unchanged {v : Value} : (v.isMap = true → ∀ d ∈ taggings, d.target ≠ target) →
    FramedSchema taggings target v v
  | narrowed {es fs : Entries} : FramedTarget taggings target es fs →
    FramedSchema taggings target (.ofEntries es) (.ofEntries fs)

structure FramedCollection (taggings : List Tagging) (schemas narrowed : Entries) : Prop where
  keys : narrowed.keys = schemas.keys
  schemas : ∀ name v, schemas.get? name = some v →
    ∃ w, narrowed.get? name = some w ∧ FramedSchema taggings name v w

namespace FramedSchema

variable {taggings : List Tagging} {d : Tagging} {v w : Value}

theorem pass (h : FramedSchema taggings target v w)
    (hd : w.isMap = true → d.target ≠ target) : FramedSchema (taggings ++ [d]) target v w := by
  cases h with
  | unchanged hall =>
    refine .unchanged fun hmap d' hd' => ?_
    rcases List.mem_append.mp hd' with hd' | hd'
    · exact hall hmap d' hd'
    · rw [List.mem_singleton.mp hd']
      exact hd hmap
  | narrowed hframed =>
    obtain ⟨d', hd', htarget⟩ := hframed.selected
    obtain ⟨ps, qs, hps, hqs, hproperties⟩ := hframed.properties
    exact .narrowed ⟨⟨d', List.mem_append_left _ hd', htarget⟩, hframed.keywords, ps, qs, hps, hqs,
      hproperties.pass (hd rfl)⟩

theorem step {fs qs : Entries} (h : FramedSchema taggings target v (.ofEntries fs))
    (htarget : d.target = target) (hproperty : d.property = .scalar key)
    (hkey : key.isJson = true) (hqs : qs.JsonKeys)
    (hproperties : (fs.get? "properties").getD (.ofEntries []) = .ofEntries qs) :
    FramedSchema (taggings ++ [d]) target v (.ofEntries
      (fs.put (.str "properties") (.ofEntries (qs.put key (tagged qs key d.value))))) := by
  have hselected : ∃ d' ∈ taggings ++ [d], d'.target = target :=
    ⟨d, List.mem_append_right _ List.mem_cons_self, htarget⟩
  generalize hw : Value.ofEntries fs = w at h
  cases h with
  | unchanged hall =>
    subst hw
    exact .narrowed ⟨hselected, .put .., qs, _, hproperties, Entries.get?_put_self ..,
      (FramedProperties.refl (hall rfl) qs).step htarget hproperty hkey hqs⟩
  | narrowed hframed =>
    cases hw
    obtain ⟨ps, qs', hps, hqs', hframes⟩ := hframed.properties
    obtain rfl : qs' = qs := by
      rw [hqs'] at hproperties
      exact (Value.map.inj hproperties).2
    exact .narrowed ⟨hselected, hframed.keywords.put_trans (by rw [hqs']; rfl) _, ps, _, hps,
      Entries.get?_put_self .., hframes.step htarget hproperty hkey hqs⟩

end FramedSchema

theorem foldlM_narrow_all {I : List Tagging → Entries → Prop} {taggings : List Tagging}
    (hstep : ∀ done current, ∀ d ∈ taggings, ∀ next, I done current → d.narrow current = .ok next →
      I (done ++ [d]) next)
    (h : taggings.foldlM Tagging.narrow schemas = .ok narrowed) (hI : I [] schemas) :
    I taggings narrowed := by
  suffices hall : ∀ done current, I done current →
      taggings.foldlM Tagging.narrow current = .ok narrowed → I (done ++ taggings) narrowed from
    hall [] schemas hI h
  clear h hI
  induction taggings with
  | nil =>
    intro done current hI h
    cases pure_eq_ok.mp h
    rwa [List.append_nil]
  | cons d taggings ih =>
    intro done current hI h
    rw [List.foldlM_cons] at h
    obtain ⟨next, hnext, h⟩ := bind_eq_ok.mp h
    rw [List.append_cons]
    exact ih (fun done current d' hd' => hstep done current d' (List.mem_cons_of_mem d hd')) _ next
      (hstep done current d List.mem_cons_self next hI hnext) h

section Run

variable {taggings : List Tagging} {d : Tagging} {current : Entries}

theorem JsonCollection.narrow (hcurrent : JsonCollection current)
    (hd : d.value.isJson = true ∧ d.property.Throughout (fun s => s.isJson = true) fun _ => True)
    (h : d.narrow current = .ok narrowed) : JsonCollection narrowed := by
  rw [Tagging.narrow] at h
  split at h
  · exact ⟨(narrowTarget_narrows hcurrent.unlabelled h).2, narrowTarget_throughout
      Value.lasting_isJson rfl rfl hcurrent.scalars hd.2 hd.1 h⟩
  · cases h
    exact hcurrent

theorem Tagging.narrow_cases (hcurrent : current.Unlabelled)
    (h : d.narrow current = .ok narrowed) :
    (narrowed = current ∧ ∀ v, current.get? d.target = some v → v.isMap = false) ∨
    ∃ es ps key, current.get? d.target = some (.ofEntries es) ∧
      (es.get? "properties").getD (.ofEntries []) = .ofEntries ps ∧ d.property = .scalar key ∧
      narrowed = current.put (.str d.target) (.ofEntries
        (es.put (.str "properties") (.ofEntries (ps.put key (tagged ps key d.value))))) := by
  rw [Tagging.narrow] at h
  split at h
  · rename_i label es hfound
    obtain ⟨rfl, -⟩ := Value.isUnlabelled_map.mp (hcurrent.find? hfound)
    obtain ⟨ps, key, hps, hkey, hnarrowed⟩ := narrowTarget_eq_put hcurrent hfound h
    exact .inr ⟨es, ps, key, hfound, hps, hkey, hnarrowed⟩
  · rename_i hmissing
    cases h
    refine .inl ⟨rfl, fun v hv => ?_⟩
    cases v with
    | map label es => exact absurd hv (hmissing label es)
    | _ => rfl

theorem JsonCollection.propertyKeys {es ps : Entries} (h : JsonCollection current)
    (htarget : current.get? target = some (.ofEntries es))
    (hproperties : (es.get? "properties").getD (.ofEntries []) = .ofEntries ps) :
    ps.JsonKeys := by
  cases hfound : es.get? "properties" with
  | none =>
    rw [hfound] at hproperties
    cases hproperties
    exact fun e he => nomatch he
  | some v =>
    rw [hfound, Option.getD_some] at hproperties
    have hfound' : propertiesOf? current (.str target) = some (.map none ps) := by
      rw [propertiesOf?_eq, htarget, Option.bind_some, Value.ofEntries, Value.members, hfound,
        hproperties, Value.ofEntries]
    exact h.keys hfound'

theorem FramedCollection.step (h : FramedCollection taggings schemas current)
    (hcurrent : JsonCollection current)
    (hd : d.value.isJson = true ∧ d.property.Throughout (fun s => s.isJson = true) fun _ => True)
    (hnarrowed : d.narrow current = .ok narrowed) :
    FramedCollection (taggings ++ [d]) schemas narrowed := by
  rcases Tagging.narrow_cases hcurrent.unlabelled hnarrowed with
    ⟨rfl, hmissing⟩ | ⟨es, ps, key, htarget, hproperties, hkey, rfl⟩
  · refine ⟨h.keys, fun name v hv => ?_⟩
    obtain ⟨w, hw, hframed⟩ := h.schemas name v hv
    refine ⟨w, hw, hframed.pass ?_⟩
    rintro hmap rfl
    rw [hmissing w hw] at hmap
    cases hmap
  · refine ⟨?_, fun name v hv => ?_⟩
    · rw [Entries.keys_put, ← Entries.get?, htarget, h.keys]
      rfl
    · obtain ⟨w, hw, hframed⟩ := h.schemas name v hv
      by_cases hname : name = d.target
      · subst hname
        cases htarget.symm.trans hw
        rw [hkey] at hd
        exact ⟨_, Entries.get?_put_self .., hframed.step rfl hkey
          (Value.throughout_scalar.mp hd.2) (hcurrent.propertyKeys htarget hproperties)
          hproperties⟩
      · rw [Entries.get?_put_of_ne hname]
        exact ⟨w, hw, hframed.pass fun _ heq => hname heq.symm⟩

theorem foldlM_frames (hschemas : JsonCollection schemas)
    (htaggings : ∀ d ∈ taggings, d.value.isJson = true ∧
      d.property.Throughout (fun s => s.isJson = true) fun _ => True)
    (h : taggings.foldlM Tagging.narrow schemas = .ok narrowed) :
    FramedCollection taggings schemas narrowed := by
  refine (foldlM_narrow_all (I := fun done current =>
    JsonCollection current ∧ FramedCollection done schemas current)
    (fun done current d hd next ⟨hcurrent, hframed⟩ hnext => ?_) h ⟨hschemas, rfl, ?_⟩).2
  · exact ⟨hcurrent.narrow (htaggings d hd) hnext, hframed.step hcurrent (htaggings d hd) hnext⟩
  · exact fun name w hw => ⟨w, hw, .unchanged fun _ _ hd => nomatch hd⟩

section Json

variable {v : Value} (hv : v.isJson = true)
include hv

theorem JsonCollection.members : JsonCollection v.members :=
  ⟨Value.isUnlabelled_members (Value.isUnlabelled_of_isJson hv),
    (Value.throughout_of_isJson hv).members Value.lasting_isJson⟩

theorem Tagging.isJson_of_mem (hd : d ∈ Tagging.ofSchemas v.members) : d.value.isJson = true ∧
    d.property.Throughout (fun s => s.isJson = true) fun _ => True :=
  Tagging.throughout Value.lasting_isJson
    (fun e he => ((JsonCollection.members hv).scalars.2 e he).2) hd

/-- What the taggings of a collection of JSON values make of it. -/
theorem followDiscriminators_frames {s t : Log}
    (h : Returns (followDiscriminators v) s narrowed t) :
    FramedCollection (Tagging.ofSchemas v.members) v.members narrowed :=
  foldlM_frames (.members hv) (fun _ => Tagging.isJson_of_mem hv) (followDiscriminators_returns h)

end Json

end Run

section Examples

/-- Kinds of which one has the property of the tag, one has a reference in its place, and one has no
properties and is selected by two values. -/
def describedKinds : Value :=
  .ofEntries [
    (.str "Pet", .ofEntries [(.str "discriminator", .ofEntries [
      (.str "propertyName", .str "kind"),
      (.str "mapping", .ofEntries [
        (.str "cat", .str "#/components/schemas/Cat"),
        (.str "dog", .str "#/components/schemas/Dog"),
        (.str "fish", .str "#/components/schemas/Fish"),
        (.str "eel", .str "#/components/schemas/Fish")])])]),
    (.str "Cat", .ofEntries [(.str "properties", .ofEntries [(.str "kind", .ofEntries [
      (.str "type", .str "string"), (.str "description", .str "Who meows")])])]),
    (.str "Dog", .ofEntries [(.str "properties", .ofEntries [(.str "kind", .ofEntries [
      (.str "$ref", .str "#/components/schemas/Kind")])])]),
    (.str "Fish", .ofEntries [(.str "type", .str "object")])]

theorem followDiscriminators_frames_describedKinds : describedKinds.isJson = true ∧
    ∃ narrowed log, Returns (followDiscriminators describedKinds) [] narrowed log ∧
      FramedCollection (Tagging.ofSchemas describedKinds.members) describedKinds.members
        narrowed := by
  have hjson : describedKinds.isJson = true := by decide
  obtain ⟨narrowed, log, hrun⟩ : ∃ narrowed log,
      (followDiscriminators describedKinds).run.run [] = (.ok narrowed, log) :=
    exists_of_isSome (by decide +kernel)
  exact ⟨hjson, narrowed, log, hrun, followDiscriminators_frames hjson hrun⟩

end Examples

end ApiBindings.Schema
