import ApiBindings.Proofs.Document.Tree
import ApiBindings.Proofs.Schema.Faults
import ApiBindings.Proofs.Schema.Resolve
import ApiBindings.Proofs.Schema.Unshared

/-!
Where the type of a schema fails. Main statement: an array without items and a reference out of the
collections are reported at the location of the schema, followed by the keys and the places that
lead to them; the location decides on nothing else.
-/

namespace ApiBindings.Schema

open Value (Step at? pathText pathText_singleton)

/-- Mappings that have no type, and the causes that are reported of them. -/
inductive Faulty : Value → Cause → Prop
  | array {label : Option Nat} {es : Entries} : es.get "type" = .str "array" →
    es.get "items" = .null → Faulty (.map label es) .missingItems
  | reference {label : Option Nat} {es : Entries} {ref : String} : es.get "$ref" = .str ref →
    (∀ c ∈ collections, Text.beginsWith c.1 ref = false) →
    Faulty (.map label es) (.unsupportedReference ref)

def FaultyAt (v : Value) (steps : List Step) (cause : Cause) : Prop :=
  ∃ node, v.at? steps = some node ∧ Faulty node cause

section FaultyAt

variable {steps : List Step} {cause : Cause} {s : Value}

theorem FaultyAt.item {items : List Value} {n : Nat} (h : FaultyAt s steps cause)
    (hs : items[n]? = some s) : FaultyAt (.list items) (.index n :: steps) cause := by
  obtain ⟨node, hnode, hfaulty⟩ := h
  refine ⟨node, ?_, hfaulty⟩
  rw [at?, hs]
  exact hnode

theorem FaultyAt.entry {label : Option Nat} {es : Entries} {name : String}
    (h : FaultyAt s steps cause) (hs : es.get? name = some s) :
    FaultyAt (.map label es) (.key name :: steps) cause := by
  obtain ⟨node, hnode, hfaulty⟩ := h
  refine ⟨node, ?_, hfaulty⟩
  rw [at?, hs]
  exact hnode

end FaultyAt

def Unplaced : Fault → Prop
  | .failure .missingItems _ => False
  | .failure (.unsupportedReference _) _ => False
  | _ => True

/-- The search has one result at all locations; and it ends with the same fault at all of them, or
with one cause that is reported under the location, where the same steps lead. -/
inductive Located {α : Type} (fails : List Step → Cause → Prop) (find : String → Except Fault α) :
    Prop
  | found (a : α) : (∀ location, find location = .ok a) → Located fails find
  | placed (steps : List Step) (cause : Cause) : fails steps cause →
    (∀ location, find location = .error (.located cause (location ++ pathText steps))) →
    Located fails find
  | unplaced (e : Fault) : Unplaced e → (∀ location, find location = .error e) →
    Located fails find

namespace Located

variable {α β : Type} {fails inner : List Step → Cause → Prop} {find : String → Except Fault α}

theorem of_faultsIn {x : Except Fault α} (h : FaultsIn Unplaced x) :
    Located fails fun _ => x := by
  cases x with
  | ok a => exact .found a fun _ => rfl
  | error e => exact .unplaced e (h e rfl) fun _ => rfl

theorem here {cause : Cause} (h : fails [] cause) :
    Located fails fun location => (.error (.located cause location) : Except Fault α) :=
  .placed [] cause h fun location => by rw [pathText, String.append_empty]

theorem bind {g : α → String → Except Fault β} (h : Located fails find)
    (hg : ∀ a, (∀ location, find location = .ok a) → Located fails (g a)) :
    Located fails fun location => find location >>= fun a => g a location := by
  cases h with
  | found a h =>
    simp only [h]
    exact hg a h
  | placed steps cause hsteps h =>
    refine .placed steps cause hsteps fun location => ?_
    rw [h]
    rfl
  | unplaced e he h =>
    refine .unplaced e he fun location => ?_
    rw [h]
    rfl

theorem under (first : List Step) (h : Located inner find)
    (hfails : ∀ steps cause, inner steps cause → fails (first ++ steps) cause) :
    Located fails fun location => find (location ++ pathText first) := by
  cases h with
  | found a h => exact .found a fun _ => h _
  | placed steps cause hsteps h =>
    refine .placed (first ++ steps) cause (hfails steps cause hsteps) fun location => ?_
    rw [h, Value.pathText_append, String.append_assoc]
  | unplaced e he h => exact .unplaced e he fun _ => h _

end Located

theorem unplaced_typing : Fault.Typing (fun _ => False) Unplaced where
  misuse _ := trivial
  unnameable _ _ := trivial
  unresolved _ _ _ := trivial
  items _ _ h := h.elim
  reference _ _ _ h := h.elim

theorem target?_eq_none {ref : String} {roots : List (String × String)}
    (h : target? ref roots = none) : ∀ c ∈ roots, Text.beginsWith c.1 ref = false := by
  induction roots with
  | nil => exact fun _ hc => nomatch hc
  | cons c rest ih =>
    obtain ⟨root, suffix⟩ := c
    rw [target?] at h
    split at h
    · cases h
    · rename_i hroot
      refine List.forall_mem_cons.mpr ⟨?_, ih h⟩
      rw [Text.dropStart?, Option.map_eq_none_iff] at hroot
      rw [Text.beginsWith, hroot, Option.isSome_none]

theorem referencedType_located {label : Option Nat} {es : Entries} {ref : Value}
    (href : reference? es = some ref) :
    Located (FaultyAt (.map label es)) fun location => referencedType ref (some location) := by
  cases htext : ref.expectText with
  | error e =>
    have he := Value.faultsIn_expectText unplaced_typing ref e htext
    refine .unplaced e he fun location => ?_
    rw [referencedType, htext]
    rfl
  | ok text =>
    have hvalue : es.get "$ref" = .str text := by
      rw [reference?_eq_some href, Value.expectText_ok htext]
    have hname : Located (FaultyAt (.map label es))
        fun location => referencedName text (some location) := by
      cases htarget : target? text collections with
      | none =>
        have hfaulty : Faulty (.map label es) (.unsupportedReference text) :=
          .reference hvalue (target?_eq_none htarget)
        simp only [referencedName, htarget]
        exact .here ⟨_, rfl, hfaulty⟩
      | some target =>
        simp only [referencedName, htarget]
        exact .of_faultsIn (faultsIn_bind (Naming.faultsIn_pascalCase unplaced_typing _)
          fun _ _ => faultsIn_ok _)
    have htype (location : String) : referencedType ref (some location) =
        referencedName text (some location) >>= fun name => .ok (.named name) := by
      rw [referencedType, htext]
      rfl
    simp only [htype]
    exact hname.bind fun name _ => .found (.named name) fun _ => rfl

theorem itemTypes_located {items : List Value} (front : List Value)
    (h : ∀ s ∈ items, Located (FaultyAt s) (typeOf s)) :
    Located (FaultyAt (.list (front ++ items)))
      fun location => itemTypes items location front.length := by
  induction items generalizing front with
  | nil =>
    simp only [itemTypes]
    exact .found [] fun _ => rfl
  | cons item rest ih =>
    have hitem : Located (FaultyAt (.list (front ++ item :: rest)))
        fun location => typeOf item (location ++ pathText [.index front.length]) :=
      (h item List.mem_cons_self).under _ fun _ _ hs => hs.item (by simp)
    have hrest := ih (front ++ [item]) fun s hs => h s (List.mem_cons_of_mem item hs)
    rw [List.append_assoc, List.singleton_append, List.length_append,
      List.length_singleton] at hrest
    simp only [pathText_singleton, Step.text, ← String.append_assoc] at hitem
    simp only [itemTypes]
    exact hitem.bind fun t _ => hrest.bind fun ts _ => .found (t :: ts) fun _ => rfl

theorem fieldTypes_located {label : Option Nat} {properties entries : Entries}
    (hproperties : properties.UnderTexts) (hentries : ∀ p ∈ entries, p ∈ properties)
    (h : ∀ p ∈ properties, Located (FaultyAt p.2) (typeOf p.2)) (required : Value) :
    Located (FaultyAt (.map label properties))
      fun location => fieldTypes entries required (location ++ "/") := by
  induction entries with
  | nil =>
    simp only [fieldTypes]
    exact .found [] fun _ => rfl
  | cons p rest ih =>
    obtain ⟨key, schema⟩ := p
    rw [List.forall_mem_cons] at hentries
    obtain ⟨name, rfl⟩ := hproperties.text _ hentries.1
    have hfound : properties.get? name = some schema :=
      (Entries.get?_eq_some_iff hproperties.nodup).mpr hentries.1
    have hfield : Located (FaultyAt (.map label properties))
        fun location => typeOf schema (location ++ pathText [.key name]) :=
      (h _ hentries.1).under _ fun _ _ hs => hs.entry hfound
    simp only [pathText_singleton, Step.text, ← String.append_assoc] at hfield
    simp only [fieldTypes, Scalar.text]
    refine hfield.bind fun t _ => ?_
    refine (Located.of_faultsIn (Value.faultsIn_holds unplaced_typing _ _)).bind fun r _ => ?_
    refine (Located.of_faultsIn (Value.faultsIn_textField unplaced_typing _)).bind fun n _ => ?_
    refine (Located.of_faultsIn (Value.faultsIn_optionalTextField unplaced_typing _)).bind
      fun d _ => ?_
    exact (ih hentries.2).bind fun fields _ => .found ((⟨n, r, d⟩, t) :: fields) fun _ => rfl

section Given

variable {es : Entries} {v : Value}

theorem arrayType_some (h : es.get? "items" = some v) (hv : v ≠ .null) (location : String) :
    arrayType es location = do
      let item ← typeOf v (location ++ ("/" ++ "items"))
      let least := es.get "minItems"
      let greatest := es.get "maxItems"
      if least.isFilled && greatest.isFilled && least.equals greatest then
        return .tuple item (← least.integerField)
      else return .array item := by
  rw [arrayType_eq, h]
  split <;> simp_all

theorem indexType_some (h : es.get? "additionalProperties" = some v) (location : String) :
    indexType es location =
      if isGiven v then do
        return some (← typeOf v (location ++ ("/" ++ "additionalProperties")))
      else .ok none := by
  rw [indexType_eq, h]
  split
  · simp_all
  · rename_i heq
    cases heq
    rw [typeOf_scalar]
    rfl
  · simp_all

end Given

section Parts

variable {label : Option Nat} {es : Entries} (h : ∀ s, Part es s → Located (FaultyAt s) (typeOf s))
include h

theorem part_located {key : String} {s : Value} (hs : es.get? key = some s) (hpart : Part es s) :
    Located (FaultyAt (.map label es)) fun location => typeOf s (location ++ ("/" ++ key)) := by
  have hin : Located (FaultyAt (.map label es))
      fun location => typeOf s (location ++ pathText [.key key]) :=
    (h s hpart).under _ fun _ _ hfaulty => hfaulty.entry hs
  simpa only [pathText_singleton, Step.text] using hin

theorem arrayType_located (htype : es.get "type" = .str "array") :
    Located (FaultyAt (.map label es)) (arrayType es) := by
  have hmissing (hitems : es.get "items" = .null) :
      Located (FaultyAt (.map label es))
        fun location => (.error (.located .missingItems location) : Except Fault TypeExpr) :=
    .here ⟨_, rfl, .array htype hitems⟩
  have heq := funext (arrayType_eq es)
  cases hitems : es.get? "items" with
  | none =>
    simp only [hitems] at heq
    rw [heq]
    exact hmissing (by rw [Entries.get, hitems, Option.getD_none])
  | some items =>
    by_cases hnull : items = .null
    · rw [hnull] at hitems
      simp only [hitems] at heq
      rw [heq]
      exact hmissing (by rw [Entries.get, hitems, Option.getD_some])
    · have hitem : Located (FaultyAt (.map label es)) _ := part_located h hitems (.items hitems)
      have htype := funext (arrayType_some hitems hnull)
      rw [htype]
      refine hitem.bind fun item _ => ?_
      dsimp only
      split_ifs
      · exact .of_faultsIn (faultsIn_bind (Value.faultsIn_integerField unplaced_typing _)
          fun _ _ => faultsIn_ok _)
      · exact .found _ fun _ => rfl

theorem memberTypes_located {key : String} (hkey : key ∈ compositionKeys) :
    Located (FaultyAt (.map label es)) (memberTypes es key) := by
  have heq := funext fun location => memberTypes_eq es location key
  cases hmembers : es.get? key with
  | none =>
    simp only [hmembers] at heq
    rw [heq]
    exact .found [] fun _ => rfl
  | some members =>
    cases members with
    | list items =>
      have hitems : Located (FaultyAt (.map label es))
          fun location => itemTypes items (location ++ pathText [.key key]) 0 :=
        (itemTypes_located [] fun s hs => h s (.member hkey hmembers hs)).under _
          fun _ _ hs => hs.entry hmembers
      simp only [pathText_singleton, Step.text, ← String.append_assoc] at hitems
      simp only [hmembers] at heq
      rw [heq]
      exact hitems
    | _ =>
      simp only [hmembers] at heq
      rw [heq]
      exact .of_faultsIn (faultsIn_bind (Value.faultsIn_elements unplaced_typing _)
        fun _ _ => faultsIn_ok _)

theorem indexType_located : Located (FaultyAt (.map label es)) (indexType es) := by
  cases hadditional : es.get? "additionalProperties" with
  | none =>
    have heq := funext (indexType_eq es)
    simp only [hadditional] at heq
    rw [heq]
    exact .found none fun _ => rfl
  | some additional =>
    have hindex : Located (FaultyAt (.map label es)) _ :=
      part_located h hadditional (.additional hadditional)
    rw [funext (indexType_some hadditional)]
    split_ifs
    · exact hindex.bind fun t _ => .found (some t) fun _ => rfl
    · exact .found none fun _ => rfl

variable (hes : es.Throughout (fun _ => True) Entries.UnderTexts)
include hes

theorem propertyTypes_located : Located (FaultyAt (.map label es)) (propertyTypes es) := by
  have heq := funext (propertyTypes_eq es)
  cases hproperties : es.get? "properties" with
  | none =>
    simp only [hproperties] at heq
    rw [heq]
    exact .found [] fun _ => rfl
  | some properties =>
    simp only [hproperties] at heq
    rw [heq]
    have hmisuse : FaultsIn Unplaced (if properties.isFilled then
        .error (.misuse .noSuchOperation) else .ok ([] : List (Field × TypeExpr))) := by
      split_ifs
      · exact faultsIn_error trivial
      · exact faultsIn_ok _
    cases properties with
    | map inner entries =>
      have htexts := (Value.throughout_map.mp (hes.find? hproperties)).1
      have hfields : Located (FaultyAt (.map label es)) fun location => fieldTypes entries
          (((es.get "required").filled?).getD (.list []))
            (location ++ pathText [.key "properties"] ++ "/") :=
        (fieldTypes_located htexts (fun _ hp => hp)
          (fun p hp => h p.2 (.property hproperties hp)) _).under _
            fun _ _ hs => hs.entry hproperties
      simp only [pathText_singleton, Step.text, String.append_assoc] at hfields
      exact hfields
    | _ => exact .of_faultsIn hmisuse

theorem objectType_located (href : reference? es = none) :
    Located (FaultyAt (.map label es)) (objectType es) := by
  have hmembers {key : String} (hkey : key ∈ compositionKeys) :
      Located (FaultyAt (.map label es)) (memberTypes es key) :=
    memberTypes_located h hkey
  have hrequired (t : TypeExpr) : Located (FaultyAt (.map label es))
      fun _ => withRequired t (es.get "required") :=
    .of_faultsIn (faultsIn_withRequired unplaced_typing _ _)
  have heq (location : String) := objectType.eq_1 es location
  simp only [href] at heq
  rw [funext heq]
  split_ifs
  · exact (hmembers (by simp)).bind fun members _ => hrequired _
  · exact (hmembers (by simp)).bind fun members _ => .found _ fun _ => rfl
  · exact (hmembers (by simp)).bind fun members _ => hrequired _
  · exact .found _ fun _ => rfl
  · exact .found _ fun _ => rfl
  · refine (propertyTypes_located h hes).bind fun fields _ => ?_
    exact (indexType_located h).bind fun index _ => .found _ fun _ => rfl
  · exact .found _ fun _ => rfl
  · exact .found _ fun _ => rfl

theorem mappingType_located (href : reference? es = none) :
    Located (FaultyAt (.map label es)) (mappingType es) := by
  have hnullable {find : String → Except Fault TypeExpr}
      (hfind : Located (FaultyAt (.map label es)) find) :
      Located (FaultyAt (.map label es)) fun location => do
        let t ← find location
        return if (es.get "nullable").isFilled then .nullable t else t :=
    hfind.bind fun _ _ => .found _ fun _ => rfl
  have henum (asText : Bool) (t : TypeExpr) :=
    hnullable (.of_faultsIn (faultsIn_enumOr unplaced_typing es asText t))
  have hobject := hnullable (objectType_located h hes href)
  have hkind : Located (FaultyAt (.map label es)) fun _ => Kind.of (es.get "type") :=
    .of_faultsIn (faultsIn_kind unplaced_typing _)
  rw [funext fun location => mappingType.eq_1 es location]
  refine hkind.bind fun kind hkind => ?_
  cases kind with
  | null => exact .found _ fun _ => rfl
  | numeric => exact henum _ _
  | boolean => exact henum _ _
  | textual => exact henum _ _
  | array => exact hnullable (arrayType_located h (eq_array_of_kind (hkind "")))
  | object => exact hobject
  | other => exact hobject
  | absent =>
    dsimp only
    split
    · exact hnullable (.of_faultsIn (faultsIn_ofEnum unplaced_typing _ _))
    · exact hobject

end Parts

/-- The location of a schema decides on nothing but the locations of its faults. -/
theorem typeOf_located (schema : Value) (h : schema.IsTree) :
    Located (FaultyAt schema) (typeOf schema) := by
  match schema with
  | .map label es =>
    have hes := Value.throughout_map.mp h
    have hpart (s : Value) (hs : Part es s) : Located (FaultyAt s) (typeOf s) :=
      typeOf_located s (hs.throughout hes)
    cases href : reference? es with
    | some ref =>
      rw [funext (typeOf_reference href)]
      exact referencedType_located href
    | none =>
      rw [funext (typeOf_mapping href)]
      exact mappingType_located hpart hes href
  | .scalar _ | .list _ | .set _ | .pair .. =>
    refine .found .any fun location => ?_
    rw [typeOf]
    intro _ _ h
    cases h
termination_by sizeOf schema
decreasing_by
  have := Part.sizeOf_lt ‹_›
  simp only [Value.map.sizeOf_spec]
  omega

def bareListing : Value :=
  .ofEntries [(.str "type", .str "object"), (.str "properties", .ofEntries [
    (.str "id", .ofEntries [(.str "type", .str "string")]),
    (.str "pets", .ofEntries [(.str "allOf", .list [.ofEntries [],
      .ofEntries [(.str "additionalProperties", .ofEntries [(.str "type", .str "array")])]])])])]

theorem typeOf_located_bareListing : bareListing.IsTree ∧
    FaultyAt bareListing [.key "properties", .key "pets", .key "allOf", .index 1,
      .key "additionalProperties"] .missingItems ∧
    Located (FaultyAt bareListing) (typeOf bareListing) := by
  have htree : bareListing.IsTree := by
    simp only [Value.IsTree, bareListing, Value.ofEntries, Value.Throughout,
      Value.EntriesThroughout, Value.ItemsThroughout]
    decide
  exact ⟨htree, ⟨_, rfl, .array rfl rfl⟩, typeOf_located bareListing htree⟩

end ApiBindings.Schema
