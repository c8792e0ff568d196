import ApiBindings.Proofs.Document.Throughout
import ApiBindings.Proofs.Failure
import ApiBindings.Naming.DocComment
import ApiBindings.Proofs.Schema.Part
import ApiBindings.Schema.Content

/-!
What can be wrong with the type of a schema or of a body. Main statements: a schema has a type, or
it has a reference, an array or a name that cannot be typed, or a value of the wrong kind; and the
reference or the array is one of its mappings.
-/

namespace ApiBindings

namespace Fault

def IsOfTyping : Fault → Prop
  | .failure (.unsupportedReference _) _ => True
  | .failure .missingItems _ => True
  | .failure (.unnameable _) _ => True
  | .failure (.unresolvedPathParameter ..) _ => True
  | .misuse _ => True
  | _ => False

/-- The condition `P` holds of the faults of the search for types, where the entries of the mappings
that are searched satisfy `Q`. -/
structure Typing (Q : Entries → Prop) (P : Fault → Prop) : Prop where
  misuse : ∀ m, P (.misuse m)
  unnameable : ∀ text location, P (.failure (.unnameable text) location)
  unresolved : ∀ name id location, P (.failure (.unresolvedPathParameter name id) location)
  items : ∀ es location, Q es → es.get "type" = .str "array" → es.get "items" = .null →
    P (.failure .missingItems location)
  reference : ∀ es ref location, Q es → es.get "$ref" = .str ref →
    Schema.target? ref Schema.collections = none → P (.failure (.unsupportedReference ref) location)

theorem typing_isOfTyping : Typing (fun _ => True) IsOfTyping where
  misuse _ := trivial
  unnameable _ _ := trivial
  unresolved _ _ _ := trivial
  items _ _ _ _ _ := trivial
  reference _ _ _ _ _ _ := trivial

end Fault

variable {S : Scalar → Prop} {Q : Entries → Prop} {P : Fault → Prop} (hP : Fault.Typing Q P)
include hP

namespace Value

theorem faultsIn_entries (v : Value) : FaultsIn P v.entries := by
  unfold entries
  split
  · exact faultsIn_ok _
  · exact faultsIn_error (hP.misuse _)

theorem faultsIn_entriesOrNone (v : Value) : FaultsIn P v.entriesOrNone := by
  unfold entriesOrNone
  split_ifs
  · exact v.faultsIn_entries hP
  · exact faultsIn_ok _

theorem faultsIn_expectText (v : Value) : FaultsIn P v.expectText := by
  unfold expectText
  split
  · exact faultsIn_ok _
  all_goals exact faultsIn_error (hP.misuse _)

theorem faultsIn_expectKey (v : Value) : FaultsIn P v.expectKey := by
  unfold expectKey
  split
  · exact faultsIn_ok _
  · exact faultsIn_error (hP.misuse _)

theorem faultsIn_elements (v : Value) : FaultsIn P v.elements := by
  unfold elements
  split
  all_goals first | exact faultsIn_ok _ | exact faultsIn_error (hP.misuse _)

theorem faultsIn_toEntries (v : Value) : FaultsIn P v.toEntries := by
  unfold toEntries
  split
  · exact faultsIn_ok _
  · refine faultsIn_bind (faultsIn_elements hP _) fun items _ => ?_
    refine faultsIn_bind (faultsIn_mapM fun item _ => ?_) fun entries _ => faultsIn_ok _
    refine faultsIn_bind (faultsIn_elements hP item) fun parts _ => ?_
    split
    · exact faultsIn_bind (faultsIn_expectKey hP _) fun key _ => faultsIn_ok _
    · exact faultsIn_error (hP.misuse _)

theorem faultsIn_textField (v : Value) : FaultsIn P v.textField := by
  unfold textField
  split
  · exact faultsIn_ok _
  · exact faultsIn_error (hP.misuse _)

theorem faultsIn_optionalTextField (v : Value) :
    FaultsIn P v.optionalTextField := by
  unfold optionalTextField
  split
  · exact faultsIn_ok _
  · exact faultsIn_ok _
  · exact faultsIn_error (hP.misuse _)

theorem faultsIn_integerField (v : Value) : FaultsIn P v.integerField := by
  unfold integerField
  repeat' split
  all_goals first | exact faultsIn_ok _ | exact faultsIn_error (hP.misuse _)

theorem faultsIn_holds (key : Scalar) (v : Value) : FaultsIn P (v.holds key) := by
  unfold holds
  repeat' split
  all_goals first | exact faultsIn_ok _ | exact faultsIn_error (hP.misuse _)

end Value

namespace Naming

theorem faultsIn_pascalCase (name : String) : FaultsIn P (pascalCase name) := by
  unfold pascalCase
  split_ifs
  · exact faultsIn_ok _
  · split
    · exact faultsIn_error (hP.unnameable _ _)
    · exact faultsIn_ok _

theorem faultsIn_pascalCaseOf (v : Value) : FaultsIn P (pascalCaseOf v) := by
  unfold pascalCaseOf
  split_ifs
  · split
    · exact faultsIn_pascalCase hP _
    · exact faultsIn_error (hP.misuse _)
  · exact faultsIn_ok _

theorem faultsIn_docCommentOf (description : Value) (tab : Nat) :
    FaultsIn P (docCommentOf description tab) := by
  unfold docCommentOf
  split_ifs
  · exact faultsIn_bind (description.faultsIn_expectText hP) fun _ _ => faultsIn_ok _
  · exact faultsIn_ok _

end Naming

namespace Schema

variable {es : Entries} {v : Value}

omit hP in
theorem reference?_eq_some {ref : Value} (h : reference? es = some ref) : es.get "$ref" = ref := by
  rw [reference?, Value.filled?] at h
  split_ifs at h
  exact Option.some.inj h

omit hP in
theorem eq_array_of_kind (h : Kind.of v = .ok .array) : v = .str "array" := by
  unfold Kind.of at h
  split at h
  · cases h
  · rename_i name
    have hname : Kind.ofName name = .array := Except.ok.inj h
    unfold Kind.ofName at hname
    split_ifs at hname with _ _ harray
    rw [harray]
  · cases h
  · cases h
  · cases h

theorem faultsIn_referencedType (hQ : Q es) {ref : Value} (href : reference? es = some ref)
    (location : Option String) : FaultsIn P (referencedType ref location) := by
  unfold referencedType
  refine faultsIn_bind (ref.faultsIn_expectText hP) fun text htext => ?_
  refine faultsIn_bind ?_ fun _ _ => faultsIn_ok _
  rw [Value.expectText_ok htext] at href
  unfold referencedName
  split
  · rename_i hnone
    exact faultsIn_error (hP.reference es text location hQ (reference?_eq_some href) hnone)
  · exact faultsIn_bind (Naming.faultsIn_pascalCase hP _) fun _ _ => faultsIn_ok _

theorem faultsIn_kind (v : Value) : FaultsIn P (Kind.of v) := by
  unfold Kind.of
  split
  all_goals first | exact faultsIn_ok _ | exact faultsIn_error (hP.misuse _)

theorem faultsIn_ofEnum (values : Value) (asText : Bool) :
    FaultsIn P (TypeExpr.ofEnum values asText) :=
  faultsIn_bind (values.faultsIn_elements hP) fun _ _ => faultsIn_ok _

theorem faultsIn_enumOr (es : Entries) (asText : Bool) (t : TypeExpr) :
    FaultsIn P (enumOr es asText t) := by
  unfold enumOr
  split_ifs
  · exact faultsIn_ofEnum hP _ _
  · exact faultsIn_ok _

theorem faultsIn_withRequired (t : TypeExpr) (required : Value) :
    FaultsIn P (withRequired t required) := by
  unfold withRequired
  split_ifs
  · refine faultsIn_bind (required.faultsIn_elements hP) fun keys _ => ?_
    refine faultsIn_bind (faultsIn_mapM fun key _ => key.faultsIn_textField hP) fun _ _ => ?_
    exact faultsIn_ok _
  · exact faultsIn_ok _

omit hP in
def TypingFaults (P : Fault → Prop) (schema : Value) : Prop :=
  ∀ location, FaultsIn P (typeOf schema location)

omit hP in
theorem faultsIn_itemTypes {items : List Value} (h : ∀ s ∈ items, TypingFaults P s)
    (location : String) (index : Nat) : FaultsIn P (itemTypes items location index) := by
  induction items generalizing index with
  | nil =>
    rw [itemTypes]
    exact faultsIn_ok _
  | cons item rest ih =>
    rw [itemTypes]
    refine faultsIn_bind (h item List.mem_cons_self _) fun t _ => ?_
    refine faultsIn_bind (ih (fun s hs => h s (List.mem_cons_of_mem item hs)) _) fun ts _ => ?_
    exact faultsIn_ok _

theorem faultsIn_fieldTypes {properties : List (Scalar × Value)}
    (h : ∀ p ∈ properties, TypingFaults P p.2) (required : Value) (location : String) :
    FaultsIn P (fieldTypes properties required location) := by
  induction properties with
  | nil =>
    rw [fieldTypes]
    exact faultsIn_ok _
  | cons p rest ih =>
    obtain ⟨key, schema⟩ := p
    rw [fieldTypes]
    refine faultsIn_bind (h _ List.mem_cons_self _) fun t _ => ?_
    refine faultsIn_bind (Value.faultsIn_holds hP _ _) fun isRequired _ => ?_
    refine faultsIn_bind (Value.faultsIn_textField hP _) fun name _ => ?_
    refine faultsIn_bind (Value.faultsIn_optionalTextField hP _) fun description _ => ?_
    refine faultsIn_bind (ih fun q hq => h q (List.mem_cons_of_mem _ hq)) fun fields _ => ?_
    exact faultsIn_ok _

section Parts

variable (h : ∀ s, Part es s → TypingFaults P s)
include h

theorem faultsIn_memberTypes {key : String} (hkey : key ∈ compositionKeys) (location : String) :
    FaultsIn P (memberTypes es key location) := by
  rw [memberTypes]
  split
  · exact faultsIn_ok _
  · rename_i items hitems
    exact faultsIn_itemTypes (fun s hs => h s (.member hkey hitems hs)) _ _
  · exact faultsIn_bind (Value.faultsIn_elements hP _) fun _ _ => faultsIn_ok _

theorem faultsIn_propertyTypes (location : String) :
    FaultsIn P (propertyTypes es location) := by
  rw [propertyTypes]
  split
  · exact faultsIn_ok _
  · rename_i properties hproperties
    exact faultsIn_fieldTypes hP (fun p hp => h p.2 (.property hproperties hp)) _ _
  · split_ifs
    · exact faultsIn_error (hP.misuse _)
    · exact faultsIn_ok _

omit hP in
theorem faultsIn_indexType (location : String) : FaultsIn P (indexType es location) := by
  rw [indexType]
  split
  · exact faultsIn_ok _
  · exact faultsIn_ok _
  · rename_i additional _ hadditional
    split_ifs
    · exact faultsIn_bind (h _ (.additional hadditional) _) fun _ _ => faultsIn_ok _
    · exact faultsIn_ok _

variable (hQ : Q es)
include hQ

theorem faultsIn_arrayType (htype : es.get "type" = .str "array") (location : String) :
    FaultsIn P (arrayType es location) := by
  rw [arrayType]
  split
  · rename_i hnone
    refine faultsIn_error (hP.items es location hQ htype ?_)
    rw [Entries.get, hnone, Option.getD_none]
  · rename_i hnull
    refine faultsIn_error (hP.items es location hQ htype ?_)
    rw [Entries.get, hnull, Option.getD_some]
  · rename_i items _ hitems
    refine faultsIn_bind (h _ (.items hitems) _) fun item _ => ?_
    dsimp only
    split_ifs
    · exact faultsIn_bind (Value.faultsIn_integerField hP _) fun _ _ => faultsIn_ok _
    · exact faultsIn_ok _

theorem faultsIn_objectType (location : String) : FaultsIn P (objectType es location) := by
  have hmembers {key : String} (hkey : key ∈ compositionKeys) :=
    faultsIn_memberTypes hP h hkey location
  rw [objectType]
  split
  · rename_i href
    exact faultsIn_referencedType hP hQ href _
  · dsimp only
    split_ifs
    · refine faultsIn_bind (hmembers (by simp)) fun members _ => ?_
      exact faultsIn_withRequired hP _ _
    · exact faultsIn_bind (hmembers (by simp)) fun members _ => faultsIn_ok _
    · refine faultsIn_bind (hmembers (by simp)) fun members _ => ?_
      exact faultsIn_withRequired hP _ _
    · exact faultsIn_ok _
    · exact faultsIn_ok _
    · refine faultsIn_bind (faultsIn_propertyTypes hP h _) fun fields _ => ?_
      exact faultsIn_bind (faultsIn_indexType h _) fun index _ => faultsIn_ok _
    · exact faultsIn_ok _
    · exact faultsIn_ok _

theorem faultsIn_mappingType (location : String) : FaultsIn P (mappingType es location) := by
  have hnullable (x : Except Fault TypeExpr) (hx : FaultsIn P x) :
      FaultsIn P (do
        let t ← x
        return if (es.get "nullable").isFilled then .nullable t else t) :=
    faultsIn_bind hx fun _ _ => faultsIn_ok _
  have hobject := faultsIn_objectType hP h hQ location
  rw [mappingType]
  refine faultsIn_bind (faultsIn_kind hP _) fun kind hkind => ?_
  cases kind with
  | null => exact faultsIn_ok _
  | numeric => exact hnullable _ (faultsIn_enumOr hP _ _ _)
  | boolean => exact hnullable _ (faultsIn_enumOr hP _ _ _)
  | textual => exact hnullable _ (faultsIn_enumOr hP _ _ _)
  | array => exact hnullable _ (faultsIn_arrayType hP h hQ (eq_array_of_kind hkind) _)
  | object => exact hnullable _ hobject
  | other => exact hnullable _ hobject
  | absent =>
    dsimp only
    split
    · exact hnullable _ (faultsIn_ofEnum hP _ _)
    · exact hnullable _ hobject

end Parts

theorem typingFaults (schema : Value) (hschema : schema.Throughout S Q) :
    TypingFaults P schema := by
  intro location
  match schema with
  | .map label es =>
    have hes := Value.throughout_map.mp hschema
    have hpart (s : Value) (hs : Part es s) : TypingFaults P s := typingFaults s (hs.throughout hes)
    rw [typeOf]
    split
    · rename_i href
      exact faultsIn_referencedType hP hes.1 href _
    · exact faultsIn_mappingType hP hpart hes.1 _
  | .scalar _ | .list _ | .set _ | .pair .. =>
    rw [typeOf]
    · exact faultsIn_ok _
    · intro _ _ h
      cases h
termination_by sizeOf schema
decreasing_by
  have := Part.sizeOf_lt ‹_›
  simp only [Value.map.sizeOf_spec]
  omega

theorem faultsIn_mappingType_of_throughout (hes : es.Throughout S Q) (location : String) :
    FaultsIn P (mappingType es location) :=
  faultsIn_mappingType hP (fun s hs => typingFaults hP s (hs.throughout hes)) hes.1 location

theorem faultsIn_findMedia? (start : String) (content : List (Scalar × Value)) :
    FaultsIn P (findMedia? start content) := by
  induction content with
  | nil => exact faultsIn_ok _
  | cons e rest ih =>
    rw [findMedia?]
    refine faultsIn_bind (Value.faultsIn_expectText hP _) fun name _ => ?_
    split_ifs
    · exact faultsIn_ok _
    · exact ih

theorem faultsIn_selectMedia? (content : List (Scalar × Value)) (starts : List String) :
    FaultsIn P (selectMedia? content starts) := by
  induction starts with
  | nil => exact faultsIn_ok _
  | cons start rest ih =>
    rw [selectMedia?]
    refine faultsIn_bind (faultsIn_findMedia? hP _ _) fun found _ => ?_
    cases found with
    | some found => exact faultsIn_ok _
    | none => exact ih

theorem faultsIn_contentType (hlasting : Value.Lasting S Q) {body : Value}
    (hbody : body.Throughout S Q) (location : String) : FaultsIn P (contentType body location) := by
  unfold contentType
  split
  · rename_i label es
    have hes := Value.throughout_map.mp hbody
    split
    · rename_i href
      exact faultsIn_referencedType hP hes.1 href _
    · split_ifs
      · refine faultsIn_bind (Value.faultsIn_entries hP _) fun content hcontent => ?_
        refine faultsIn_bind (faultsIn_selectMedia? hP _ _) fun found hfound => ?_
        cases found with
        | none => exact faultsIn_ok _
        | some found =>
          refine faultsIn_bind (Value.faultsIn_entriesOrNone hP _) fun fields hfields => ?_
          cases Value.entriesOrNone_ok hfields
          exact typingFaults hP _ (mediaSchema_throughout hlasting hes hcontent hfound) _
      · exact faultsIn_ok _
  · exact faultsIn_ok _

theorem faultsIn_contentUnion (hlasting : Value.Lasting S Q) {bodies : List (Scalar × Value)}
    (hbodies : ∀ e ∈ bodies, e.2.Throughout S Q) (location : String) :
    FaultsIn P (contentUnion bodies location) :=
  faultsIn_bind (faultsIn_mapM fun e he => faultsIn_contentType hP hlasting (hbodies e he) _)
    fun _ _ => faultsIn_ok _

end Schema

end ApiBindings
