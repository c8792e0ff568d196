import ApiBindings.Lint.Check
import ApiBindings.Proofs.Document.Keys
import ApiBindings.Proofs.Document.Preorder
import ApiBindings.Proofs.Schema.Part

/-!
What a lint without findings says of a document. Main statements: its references lead into it, its
arrays have items or null in their place, and its operations have ids as far as they are mappings.
-/

namespace ApiBindings

namespace Lint

def Report.IsSilent (r : Report) : Prop := r.errors = [] ∧ r.warnings = []

namespace Report

theorem isSilent_append {r s : Report} : (r ++ s).IsSilent ↔ r.IsSilent ∧ s.IsSilent := by
  change r.errors ++ s.errors = [] ∧ r.warnings ++ s.warnings = [] ↔ _
  rw [List.append_eq_nil_iff, List.append_eq_nil_iff]
  exact and_and_and_comm

theorem isSilent_all {rs : List Report} : (all rs).IsSilent ↔ ∀ r ∈ rs, r.IsSilent := by
  induction rs with
  | nil => simp [all, empty, IsSilent]
  | cons r rs ih => rw [all, isSilent_append, ih, List.forall_mem_cons]

theorem not_isSilent_error (message path : String) : ¬ (error message path).IsSilent := by
  simp [error, IsSilent]

theorem not_isSilent_warning (message path : String) : ¬ (warning message path).IsSilent := by
  simp [warning, IsSilent]

end Report

variable {document : Value} {report : Report}

def LeadsInto (document : Value) (ref : String) : Prop :=
  ∃ pointer, Text.dropStart? "#/" ref = some pointer ∧ Pointer.leadsInto document pointer = true

theorem leadsInto_of_isSilent {path : String} {es : Entries} {ref : String}
    (h : (referenceIssues document path es).IsSilent) (href : es.get "$ref" = .str ref) :
    LeadsInto document ref := by
  rw [referenceIssues, href] at h
  dsimp only at h
  split at h
  · exact absurd h (Report.not_isSilent_warning _ _)
  · rename_i pointer hpointer
    split_ifs at h with hleads
    · exact ⟨pointer, hpointer, hleads⟩
    · exact absurd h (Report.not_isSilent_error _ _)

theorem has_of_isSilent {path : String} {es : Entries} (h : (arrayIssues path es).IsSilent)
    (htype : es.get "type" = .str "array") : es.has "items" = true := by
  rw [arrayIssues, htype] at h
  by_contra hitems
  rw [if_pos (by simpa [Value.equals, Value.sameAs, Scalar.equals] using hitems)] at h
  exact Report.not_isSilent_error _ _ h

def HasNullItems (document : Value) : Prop :=
  ∃ node ∈ document.mappings "#", node.2.get "type" = .str "array" ∧
    node.2.get? "items" = some .null

/-- What the lint has seen at a mapping of the document. -/
structure Seen (document : Value) (es : Entries) : Prop where
  reference : ∀ ref, es.get "$ref" = .str ref → LeadsInto document ref
  items : es.get "type" = .str "array" → es.get "items" = .null → HasNullItems document

theorem seen_of_isSilent (h : (nodeIssues document).IsSilent) :
    ∀ node ∈ document.mappings "#", Seen document node.2 := by
  rw [nodeIssues, Report.isSilent_all, List.forall_mem_map] at h
  intro node hnode
  obtain ⟨hreference, harray⟩ := Report.isSilent_append.mp (h node hnode)
  refine ⟨fun ref => leadsInto_of_isSilent hreference, fun htype hitems => ?_⟩
  obtain ⟨items, hfound⟩ := Option.isSome_iff_exists.mp (has_of_isSilent harray htype)
  rw [Entries.get, hfound, Option.getD_some] at hitems
  exact ⟨node, hnode, htype, hitems ▸ hfound⟩

/-- Nothing else is seen of the values of a mapping than which scalars they are. -/
theorem lasting_seen (document : Value) : Value.Lasting (fun _ => True) (Seen document) where
  null := trivial
  char _ _ _ _ := trivial
  byte _ _ _ _ := trivial
  empty := by
    refine ⟨fun ref h => ?_, fun h _ => ?_⟩
    · cases h
    · cases h
  put es key v hes hv := by
    refine ⟨fun ref href => ?_, fun htype hitems => ?_⟩
    · rcases Entries.get_put_cases es key v "$ref" with h | h
      · exact absurd (h.symm.trans href) (hv _)
      · exact hes.reference ref (h.symm.trans href)
    · rcases Entries.get_put_cases es key v "type" with h | h
      · exact absurd (h.symm.trans htype) (hv _)
      · rcases Entries.get_put_cases es key v "items" with h' | h'
        · exact absurd (h'.symm.trans hitems) (hv _)
        · exact hes.items (h.symm.trans htype) (h'.symm.trans hitems)
  alike es fs halike hes := by
    refine ⟨fun ref href => ?_, fun htype hitems => ?_⟩
    · exact hes.reference ref (Entries.get_of_alike halike href)
    · exact hes.items (Entries.get_of_alike halike htype) (Entries.get_of_alike halike hitems)

theorem throughout_of_mappings {path : String} {Q : Entries → Prop} {v : Value}
    (hv : v.isJson = true) (h : ∀ node ∈ v.mappings path, Q node.2) :
    v.Throughout (fun _ => True) Q := by
  induction v using Value.inductionOn generalizing path with
  | scalar s => exact Value.throughout_scalar.mpr trivial
  | list items ih =>
    rw [Value.isJson, Value.areJson_iff] at hv
    rw [Value.mappings, Value.itemMappings_eq] at h
    refine Value.throughout_list.mpr fun v hmem => ?_
    obtain ⟨n, hn⟩ := List.mem_iff_getElem?.mp hmem
    have hitem : (v, n) ∈ items.zipIdx := List.mk_mem_zipIdx_iff_getElem?.mpr hn
    exact ih v hmem (hv v hmem) fun node hnode =>
      h node (List.mem_flatMap.mpr ⟨(v, n), hitem, hnode⟩)
  | map label es ih =>
    obtain ⟨-, hes⟩ := Value.isJson_map.mp hv
    rw [Value.mappings, Value.entryMappings_eq, List.forall_mem_cons] at h
    refine Value.throughout_map.mpr ⟨h.1, fun e he => ⟨trivial, ?_⟩⟩
    exact ih e he (hes e he).2 fun node hnode => h.2 node (List.mem_flatMap.mpr ⟨e, he, hnode⟩)
  | set ms => cases hv
  | pair a b => cases hv

section Operations

variable {es : Entries} {route : Scalar} {path : Value}

theorem isFilled_of_isSilent {method : String} {ofRoute : Value} {operation : Entries}
    (h : operationIssues es route method ofRoute operation = .ok report)
    (hsilent : report.IsSilent) :
    (operation.get "operationId").isFilled = true := by
  obtain ⟨parameters, -, h⟩ := bind_eq_ok.mp h
  cases pure_eq_ok.mp h
  obtain ⟨hid, -⟩ := Report.isSilent_append.mp (Report.isSilent_append.mp hsilent).1
  split_ifs at hid with hfilled
  · exact hfilled
  · exact absurd hid (Report.not_isSilent_error _ _)

theorem operationId_of_isSilent (h : pathIssues es route path = .ok report)
    (hsilent : report.IsSilent) {verb : String} {label : Option Nat} {operation : Entries}
    (hverb : verb ∈ httpMethods) (hmem : (.str verb, .map label operation) ∈ path.members) :
    (operation.get "operationId").isFilled = true := by
  cases path with
  | map l fields =>
    rw [pathIssues] at h
    obtain ⟨reports, hreports, h⟩ := bind_eq_ok.mp h
    cases pure_eq_ok.mp h
    obtain ⟨r, hr, hissues⟩ := exists_right_of_forall₂ (mapM_eq_ok.mp hreports) hmem
    dsimp only at hissues
    rw [if_pos hverb] at hissues
    exact isFilled_of_isSilent hissues (Report.isSilent_all.mp hsilent r hr)
  | _ => cases hmem

end Operations

/-- What a lint without findings says of a document. -/
structure Passes (document : Value) : Prop where
  nodes : ∀ node ∈ document.mappings "#", Seen document node.2
  operations : ∀ e ∈ (document.members.get "paths").members, ∀ verb ∈ httpMethods,
    ∀ label operation, (.str verb, .map label operation) ∈ e.2.members →
      (Entries.get operation "operationId").isFilled = true

theorem check_ok (h : check document = .ok report) : ∃ operations,
    (document.members.get "paths").members.mapM (fun e => pathIssues document.members e.1 e.2) =
      .ok operations ∧
    report = sectionIssues document.members ++ nodeIssues document ++ .all operations := by
  obtain ⟨es, hes, h⟩ := bind_eq_ok.mp h
  obtain ⟨paths, hpaths, h⟩ := bind_eq_ok.mp h
  obtain ⟨operations, hoperations, h⟩ := bind_eq_ok.mp h
  cases pure_eq_ok.mp h
  cases Value.entries_ok hes
  cases Value.entriesOrNone_ok hpaths
  exact ⟨operations, hoperations, rfl⟩

theorem passes_of_isSilent (h : check document = .ok report) (hsilent : report.IsSilent) :
    Passes document := by
  obtain ⟨operations, hoperations, rfl⟩ := check_ok h
  obtain ⟨hrest, hall⟩ := Report.isSilent_append.mp hsilent
  refine ⟨seen_of_isSilent (Report.isSilent_append.mp hrest).2, fun e he verb hverb => ?_⟩
  obtain ⟨r, hr, hissues⟩ := exists_right_of_forall₂ (mapM_eq_ok.mp hoperations) he
  intro label operation hmem
  exact operationId_of_isSilent hissues (Report.isSilent_all.mp hall r hr) hverb hmem

end Lint

end ApiBindings
