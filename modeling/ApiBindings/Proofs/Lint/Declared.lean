import ApiBindings.Proofs.Lint.Findings
import ApiBindings.Proofs.Operation.Fallback
import ApiBindings.Proofs.Text.Literal
import ApiBindings.Proofs.Text.Pieces

/-!
The placeholders that a check finds undeclared. Main statement: where all parameters are written out
in their places, it warns of a placeholder of an operation exactly if no path parameter has its
name.
-/

namespace ApiBindings

namespace Scalar

theorem perm_insertSorted {x : Scalar} {xs ys : List Scalar} (h : insertSorted x xs = some ys) :
    ys.Perm (x :: xs) := by
  induction xs generalizing ys with
  | nil =>
    cases h
    exact .refl _
  | cons y xs ih =>
    obtain ⟨below, -, h⟩ := Option.bind_eq_some_iff.mp h
    cases below with
    | true =>
      cases h
      exact .refl _
    | false =>
      obtain ⟨zs, hzs, h⟩ := Option.bind_eq_some_iff.mp h
      cases h
      exact ((ih hzs).cons y).trans (.swap x y xs)

theorem perm_insertAll {xs acc ys : List Scalar}
    (h : xs.foldlM (fun acc x => insertSorted x acc) acc = some ys) : ys.Perm (xs ++ acc) := by
  induction xs generalizing acc with
  | nil =>
    cases h
    exact .refl _
  | cons x xs ih =>
    obtain ⟨zs, hzs, h⟩ := Option.bind_eq_some_iff.mp h
    exact (ih h).trans (((perm_insertSorted hzs).append_left xs).trans List.perm_middle)

theorem perm_sorted {xs ys : List Scalar} (h : sorted xs = .ok ys) : ys.Perm xs := by
  unfold sorted at h
  split at h
  · rename_i zs hzs
    cases h
    simpa using perm_insertAll hzs
  · cases h

end Scalar

namespace Lint

open Operation (Parameter IsInline ListsInline declaring?)

section Sets

variable {xs ys zs : List Scalar}

theorem mem_foldl_distinct (hxs : ∀ x ∈ xs, ∃ text, x = .str text) (seen : List Scalar)
    (y : Scalar) :
    y ∈ xs.foldl (fun seen x => if seen.any x.isKey then seen else seen ++ [x]) seen ↔
      y ∈ seen ∨ y ∈ xs := by
  induction xs generalizing seen with
  | nil => simp
  | cons x xs ih =>
    rw [List.forall_mem_cons] at hxs
    obtain ⟨⟨text, rfl⟩, hrest⟩ := hxs
    rw [List.foldl_cons, ih hrest, List.mem_cons]
    split_ifs with hseen
    · have hmem : .str text ∈ seen := by simpa [Scalar.str_isKey] using hseen
      constructor
      · exact Or.imp_right .inr
      · rintro (h | rfl | h)
        · exact .inl h
        · exact .inl hmem
        · exact .inr h
    · rw [List.mem_append, List.mem_singleton, or_assoc]

theorem mem_distinct (hxs : ∀ x ∈ xs, ∃ text, x = .str text) (y : Scalar) :
    y ∈ distinct xs ↔ y ∈ xs := by
  rw [distinct, mem_foldl_distinct hxs]
  simp

theorem mem_missing (h : missing xs ys = .ok zs) {text : String} :
    .str text ∈ zs ↔ .str text ∈ xs ∧ .str text ∉ ys := by
  have hkey : ys.any (Scalar.str text).isKey = true ↔ .str text ∈ ys := by
    simp [Scalar.str_isKey]
  rw [(Scalar.perm_sorted h).mem_iff, List.mem_filter, ← hkey, Bool.not_eq_true',
    Bool.not_eq_true]

theorem missing_texts (h : missing xs ys = .ok zs) (hxs : ∀ x ∈ xs, ∃ text, x = .str text) :
    ∀ z ∈ zs, ∃ text, z = .str text := by
  intro z hz
  rw [(Scalar.perm_sorted h).mem_iff, List.mem_filter] at hz
  exact hxs z hz.1

end Sets

section Names

variable {es : Entries} {items : List Value} {ps : List Parameter}

theorem resolvedParameter_inline {item : Value} {p : Parameter} (h : IsInline item p) :
    resolvedParameter es item = .ok item := by
  obtain ⟨label, rfl⟩ := h.mapping
  have href := h.unreferred
  unfold Schema.reference? Value.filled? at href
  unfold resolvedParameter
  dsimp only
  split
  · rename_i ref heq
    -- a reference that is a text can only be the empty one
    have hempty : ref = "" := by simpa [heq, Value.isFilled, Scalar.isFilled] using href
    rw [hempty, show Text.dropStart? Schema.parametersRoot "" = none by decide]
  · rfl

theorem declaredNames_inline (h : List.Forall₂ IsInline items ps) :
    declaredNames es items = .ok (distinct ((ps.filter (·.isIn "path")).map (·.name))) := by
  have hresolved : items.mapM (resolvedParameter es) = .ok items := by
    refine mapM_eq_ok.mpr (List.forall₂_same.mpr fun item hitem => ?_)
    obtain ⟨p, -, hp⟩ := exists_right_of_forall₂ h hitem
    exact resolvedParameter_inline hp
  have hnames (f : Value → Option Value) (hf : ∀ label es, f (.map label es) =
      if (Entries.get es "in").equals (.str "path") then some (Entries.get es "name") else none) :
      items.filterMap f = ((ps.filter (·.isIn "path")).map (·.name)).map .scalar := by
    -- a fact about these items would stand in the way of the induction
    clear hresolved
    induction h with
    | nil => rfl
    | @cons item p items ps hitem hrest ih =>
      obtain ⟨label, rfl⟩ := hitem.mapping
      have hin : (p.entries.get "in").equals (.str "path") = p.isIn "path" := by
        rw [hitem.position.2]
        rfl
      rw [List.filterMap_cons, hf, hin, List.filter_cons]
      cases p.isIn "path" with
      | true => simp [hitem.name.2, ih]
      | false => simpa using ih
  have hkeys (names : List Scalar) :
      (names.map Value.scalar).mapM Value.expectKey = .ok names := by
    rw [mapM_eq_ok, List.forall₂_map_left_iff]
    exact List.forall₂_same.mpr fun _ _ => rfl
  refine bind_eq_ok.mpr ⟨items, hresolved, bind_eq_ok.mpr ⟨_, ?_, rfl⟩⟩
  rw [hnames _ fun _ _ => rfl]
  exact hkeys _

end Names

def undeclaredMessage (name : String) : String :=
  "Параметр пути " ++ Text.literal name ++ " не объявлен в parameters"

theorem undeclaredMessage_injective {name other : String}
    (h : undeclaredMessage name = undeclaredMessage other) : name = other := by
  unfold undeclaredMessage at h
  exact Text.literal_injective ((String.append_right_inj _).mp ((String.append_left_inj _).mp h))

theorem getLast?_toList_append {x y : String} {c : Char} (h : y.toList.getLast? = some c) :
    (x ++ y).toList.getLast? = some c := by
  rw [String.toList_append, List.getLast?_append, h, Option.some_or]

theorem isAtNode_undeclared (name location : String) :
    Issue.isAtNode ⟨undeclaredMessage name, location⟩ = false := by
  have hmessage : isOnNode (undeclaredMessage name) = false := by
    unfold undeclaredMessage
    rw [String.append_assoc]
    exact not_isOnNode_parameter _
  exact hmessage

theorem head?_toList_append {x y : String} {c : Char} (h : x.toList.head? = some c) :
    (x ++ y).toList.head? = some c := by
  rw [String.toList_append, List.head?_append, h, Option.some_or]

theorem undeclaredMessage_ne_responses (name : String) :
    undeclaredMessage name ≠ "Не заданы responses" := by
  intro h
  have hfirst : (undeclaredMessage name).toList.head? = some 'П' :=
    head?_toList_append (head?_toList_append
      (show "Параметр пути ".toList.head? = _ by decide))
  rw [h, show "Не заданы responses".toList.head? = some 'Н' by decide] at hfirst
  cases hfirst

theorem undeclaredMessage_ne (name : String) (front : String) :
    undeclaredMessage name ≠ front ++ " отсутствует в шаблоне пути" := by
  intro h
  have hs : (undeclaredMessage name).toList.getLast? = some 's' :=
    getLast?_toList_append (show " не объявлен в parameters".toList.getLast? = _ by decide)
  have hi : (front ++ " отсутствует в шаблоне пути").toList.getLast? = some 'и' :=
    getLast?_toList_append (by decide)
  rw [h, hi] at hs
  cases hs

theorem declaring?_eq_none_iff {ps : List Parameter} {name : String} :
    declaring? ps name = none ↔ .str name ∉ (ps.filter (·.isIn "path")).map (·.name) := by
  rw [declaring?, Operation.lastOf, List.find?_eq_none, List.mem_map]
  simp only [List.mem_reverse, decide_eq_true_eq, List.mem_filter, not_exists, not_and]
  refine forall_congr' fun p => ?_
  rw [← Operation.isIn_and_hasName_iff, Parameter.hasName, Scalar.equals_str]
  grind

section Operations

variable {es : Entries} {ps : List Parameter} {route location : String} {report : Report}

theorem parameterIssues_undeclared {xs ys : List Value}
    (h : parameterIssues es (.str route) (.list xs) (.list ys) location = .ok report)
    (hps : List.Forall₂ IsInline (xs ++ ys) ps) (name : String) :
    ⟨undeclaredMessage name, location⟩ ∈ report.warnings ↔
      name ∈ Naming.placeholders route ∧ declaring? ps name = none := by
  obtain ⟨text, items, declared, undeclared, unused, htext, hitems, hdeclared, hundeclared, -,
    rfl⟩ :=
    parameterIssues_ok h
  cases htext
  cases hitems
  cases (declaredNames_inline hps).symm.trans hdeclared
  have hroute : ∀ x ∈ (Naming.placeholders route).map Scalar.str, ∃ text, x = .str text := by
    intro x hx
    obtain ⟨text, -, rfl⟩ := List.mem_map.mp hx
    exact ⟨text, rfl⟩
  have hnames : ∀ x ∈ (ps.filter (·.isIn "path")).map (·.name), ∃ text, x = .str text := by
    intro x hx
    obtain ⟨p, hp, rfl⟩ := List.mem_map.mp hx
    obtain ⟨item, -, hitem⟩ := exists_left_of_forall₂ hps (List.mem_of_mem_filter hp)
    exact hitem.name.1
  have hmem : .str name ∈ undeclared ↔
      name ∈ Naming.placeholders route ∧ declaring? ps name = none := by
    rw [mem_missing hundeclared, declaring?_eq_none_iff, mem_distinct hroute, mem_distinct hnames]
    simp
  rw [← hmem, Report.warnings_append, Report.warnings_all, Report.warnings_all, List.mem_append,
    List.flatMap_map, List.flatMap_map, List.mem_flatMap, List.mem_flatMap]
  constructor
  · rintro (⟨z, hz, hissue⟩ | ⟨z, -, hissue⟩)
    · obtain ⟨text, rfl⟩ := missing_texts hundeclared
        (fun x hx => hroute x ((mem_distinct hroute x).mp hx)) z hz
      have hmessage := congrArg Issue.message (List.mem_singleton.mp hissue)
      rw [undeclaredMessage_injective hmessage]
      exact hz
    -- parameters without a placeholder are warned of in other words
    · exact absurd (congrArg Issue.message (List.mem_singleton.mp hissue))
        (undeclaredMessage_ne name _)
  · exact fun hz => .inl ⟨_, hz, List.mem_singleton_self _⟩

def listed (v : Value) : Value := v.filled?.getD (.list [])

theorem operationIssues_undeclared {method : String} {v : Value} {operation : Entries}
    {ofRoute ofOperation : List Parameter}
    (h : operationIssues es (.str route) method (listed v) operation = .ok report)
    (hroute : ListsInline v ofRoute)
    (hoperation : ListsInline (operation.get "parameters") ofOperation) (name : String) :
    ⟨undeclaredMessage name, Operation.location (.str route) method⟩ ∈ report.warnings ↔
      name ∈ Naming.placeholders route ∧ declaring? (ofRoute ++ ofOperation) name = none := by
  obtain ⟨xs, hxs, -, hxs'⟩ := hroute.items
  obtain ⟨ys, hys, -, hys'⟩ := hoperation.items
  obtain ⟨parameters, hparameters, h⟩ := bind_eq_ok.mp h
  cases pure_eq_ok.mp h
  rw [listed, hxs', hys'] at hparameters
  rw [← parameterIssues_undeclared hparameters (List.rel_append hxs hys) name,
    Report.warnings_append, List.mem_append]
  refine or_iff_right fun hother => ?_
  -- what else is warned of are missing answers
  rcases List.mem_append.mp hother with hid | hresponses
  · split at hid <;> cases hid
  · split at hresponses
    · cases hresponses
    · have hmessage := congrArg Issue.message (List.mem_singleton.mp hresponses)
      exact absurd hmessage (undeclaredMessage_ne_responses name)

theorem operationIssues_path {method : String} {ofRoute : Value} {operation : Entries}
    {place : Scalar} (h : operationIssues es place method ofRoute operation = .ok report) :
    report.Every fun i => i.path = Operation.location place method := by
  obtain ⟨parameters, hparameters, h⟩ := bind_eq_ok.mp h
  cases pure_eq_ok.mp h
  have hroute := parameterIssues_every (P := fun i => i.path = Operation.location place method)
    hparameters fun _ => rfl
  refine Report.every_append.mpr ⟨Report.every_append.mpr ⟨?_, ?_⟩, hroute⟩
  · split
    · exact Report.every_empty
    · exact Report.every_error.mpr rfl
  · split
    · exact Report.every_empty
    · exact Report.every_warning.mpr rfl

theorem mem_warnings_pathIssues {label : Option Nat} {place : Scalar} {fields : Entries} {i : Issue}
    (h : pathIssues es place (.map label fields) = .ok report) : i ∈ report.warnings ↔
      ∃ method l operation r, (.str method, .map l operation) ∈ fields ∧ method ∈ httpMethods ∧
        operationIssues es place method (listed (fields.get "parameters")) operation = .ok r ∧
        i ∈ r.warnings := by
  obtain ⟨reports, hreports, h⟩ := bind_eq_ok.mp h
  cases pure_eq_ok.mp h
  rw [Report.warnings_all, List.mem_flatMap]
  constructor
  · rintro ⟨r, hr, hi⟩
    obtain ⟨⟨key, operation⟩, he, hentry⟩ := exists_left_of_forall₂ (mapM_eq_ok.mp hreports) hr
    dsimp only at hentry
    split at hentry
    · rename_i method l operation
      split_ifs at hentry with hmethod
      · exact ⟨method, l, operation, r, he, hmethod, hentry, hi⟩
      · cases hentry
        cases hi
    · cases hentry
      cases hi
  · rintro ⟨method, l, operation, r, he, hmethod, hoperation, hi⟩
    obtain ⟨r', hr', hentry⟩ := exists_right_of_forall₂ (mapM_eq_ok.mp hreports) he
    dsimp only at hentry
    rw [if_pos hmethod] at hentry
    cases hoperation.symm.trans hentry
    exact ⟨r, hr', hi⟩

def OperationAt (document : Value) (route : Scalar) (method : String) (path operation : Entries) :
    Prop :=
  ∃ label l, (route, .map label path) ∈ (document.members.get "paths").members ∧
    (.str method, .map l operation) ∈ path

theorem mem_warnings_check {document : Value} {i : Issue} (h : check document = .ok report)
    (hi : i.isAtNode = false) : i ∈ report.warnings ↔
      ∃ place method path operation r, OperationAt document place method path operation ∧
        method ∈ httpMethods ∧ operationIssues document.members place method
          (listed (path.get "parameters")) operation = .ok r ∧ i ∈ r.warnings := by
  obtain ⟨operations, hpaths, rfl⟩ := check_ok h
  have hsections : i ∉ (sectionIssues document.members).warnings := by
    unfold sectionIssues
    rw [Report.warnings_append, List.mem_append]
    rintro (hi | hi) <;> split at hi <;> cases hi
  have hnodes : i ∉ (nodeIssues document).warnings := by
    intro hmem
    rw [(nodeIssues_isAtNode document).2 i hmem] at hi
    cases hi
  rw [Report.warnings_append, Report.warnings_append, List.mem_append, List.mem_append,
    or_iff_right (not_or.mpr ⟨hsections, hnodes⟩), Report.warnings_all, List.mem_flatMap]
  constructor
  · rintro ⟨r, hr, hmem⟩
    obtain ⟨⟨place, path⟩, he, hpath⟩ := exists_left_of_forall₂ (mapM_eq_ok.mp hpaths) hr
    cases path with
    | map label fields =>
      obtain ⟨method, l, operation, r', hentry, hmethod, hoperation, hmem⟩ :=
        (mem_warnings_pathIssues hpath).mp hmem
      exact ⟨place, method, fields, operation, r', ⟨label, l, he, hentry⟩, hmethod, hoperation,
        hmem⟩
    | _ =>
      cases hpath
      cases hmem
  · rintro ⟨place, method, path, operation, r, ⟨label, l, he, hentry⟩, hmethod, hoperation, hmem⟩
    obtain ⟨r', hr', hpath⟩ := exists_right_of_forall₂ (mapM_eq_ok.mp hpaths) he
    exact ⟨r', hr', (mem_warnings_pathIssues hpath).mpr
      ⟨method, l, operation, r, hentry, hmethod, hoperation, hmem⟩⟩

/-- Operations are at different places, since no method has a slash in it. -/
theorem location_injective {other method method' : String} (hm : '/' ∉ method.toList)
    (hm' : '/' ∉ method'.toList)
    (h : Operation.location (.str route) method = Operation.location (.str other) method') :
    route = other ∧ method = method' := by
  have hslash : "/".toList = ['/'] := rfl
  unfold Operation.location at h
  have hpieces := congrArg (Text.splitAt '/') h
  rw [Text.splitAt_append hslash, Text.splitAt_append hslash, Text.splitAt_of_not_mem hm,
    Text.splitAt_of_not_mem hm'] at hpieces
  obtain ⟨-, hlast⟩ := List.append_inj' hpieces rfl
  cases hlast
  exact ⟨(String.append_right_inj _).mp
    ((String.append_left_inj _).mp ((String.append_left_inj _).mp h)), rfl⟩

theorem slash_not_mem_of_mem_httpMethods {method : String} (h : method ∈ httpMethods) :
    '/' ∉ method.toList := by
  revert h
  revert method
  decide

theorem OperationAt.unique {document : Value} {method : String}
    {path path' operation operation' : Entries} (htree : document.IsTree)
    (h : OperationAt document (.str route) method path operation)
    (h' : OperationAt document (.str route) method path' operation') :
    path = path' ∧ operation = operation' := by
  obtain ⟨label, l, hpath, hoperation⟩ := h
  obtain ⟨label', l', hpath', hoperation'⟩ := h'
  obtain ⟨hpaths, htrees⟩ := (htree.get "paths").members
  have hsame := (Entries.get?_eq_some_iff hpaths.nodup).mpr hpath
  rw [(Entries.get?_eq_some_iff hpaths.nodup).mpr hpath'] at hsame
  cases hsame
  have hfields := (Value.isTree_map.mp (htrees _ hpath)).1
  have hsame := (Entries.get?_eq_some_iff hfields.nodup).mpr hoperation
  rw [(Entries.get?_eq_some_iff hfields.nodup).mpr hoperation'] at hsame
  cases hsame
  exact ⟨rfl, rfl⟩

theorem exists_operationIssues {document : Value} {place : Scalar} {method : String}
    {path operation : Entries} (h : check document = .ok report)
    (hat : OperationAt document place method path operation) (hmethod : method ∈ httpMethods) :
    ∃ r, operationIssues document.members place method (listed (path.get "parameters")) operation =
      .ok r := by
  obtain ⟨operations, hpaths, -⟩ := check_ok h
  obtain ⟨label, l, he, hentry⟩ := hat
  obtain ⟨r, -, hpath⟩ := exists_right_of_forall₂ (mapM_eq_ok.mp hpaths) he
  obtain ⟨reports, hreports, -⟩ := bind_eq_ok.mp hpath
  obtain ⟨r, -, hissues⟩ := exists_right_of_forall₂ (mapM_eq_ok.mp hreports) hentry
  dsimp only at hissues
  rw [if_pos hmethod] at hissues
  exact ⟨r, hissues⟩

/-- The check warns of a placeholder of an operation exactly if it is declared nowhere. -/
theorem check_undeclared_iff {document : Value} {method : String} {path operation : Entries}
    {ofRoute ofOperation : List Parameter} (htree : document.IsTree)
    (h : check document = .ok report)
    (hat : OperationAt document (.str route) method path operation)
    (hmethod : method ∈ httpMethods) (hroute : ListsInline (path.get "parameters") ofRoute)
    (hoperation : ListsInline (operation.get "parameters") ofOperation) (name : String) :
    ⟨undeclaredMessage name, Operation.location (.str route) method⟩ ∈ report.warnings ↔
      name ∈ Naming.placeholders route ∧ declaring? (ofRoute ++ ofOperation) name = none := by
  rw [mem_warnings_check h (isAtNode_undeclared name _)]
  constructor
  · rintro ⟨place, other, fields, called, r, hat', hmethod', hissues, hmem⟩
    obtain ⟨text, rfl⟩ : ∃ text, place = .str text := by
      obtain ⟨label, l, he, -⟩ := hat'
      exact (htree.get "paths").members.1.text _ he
    have hplace := (operationIssues_path hissues).2 _ hmem
    obtain ⟨rfl, rfl⟩ := location_injective (slash_not_mem_of_mem_httpMethods hmethod)
      (slash_not_mem_of_mem_httpMethods hmethod') hplace
    obtain ⟨rfl, rfl⟩ := hat.unique htree hat'
    exact (operationIssues_undeclared hissues hroute hoperation name).mp hmem
  · intro hname
    obtain ⟨r, hissues⟩ := exists_operationIssues h hat hmethod
    exact ⟨_, method, path, operation, r, hat, hmethod, hissues,
      (operationIssues_undeclared hissues hroute hoperation name).mpr hname⟩

end Operations

end Lint

end ApiBindings
