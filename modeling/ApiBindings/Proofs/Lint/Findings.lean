import ApiBindings.Lint.Check
import ApiBindings.Proofs.Declaration.Run
import ApiBindings.Proofs.Document.Pointer
import ApiBindings.Proofs.Document.Preorder
import ApiBindings.Proofs.Lint.Silent

/-!
The findings of a check at the mappings of a document. Main statement: the errors and warnings about
references and arrays are, in preorder of the document, those of each of its mappings.
-/

namespace ApiBindings.Lint

open Value (Step pathText)

variable {document : Value} {report : Report}

namespace Report

variable {r s : Report} {rs : List Report} {P : Issue → Prop}

@[simp]
theorem errors_append : (r ++ s).errors = r.errors ++ s.errors := rfl

@[simp]
theorem warnings_append : (r ++ s).warnings = r.warnings ++ s.warnings := rfl

@[simp]
theorem errors_all : (all rs).errors = rs.flatMap errors := by
  induction rs with
  | nil => rfl
  | cons r rs ih => rw [all, errors_append, ih, List.flatMap_cons]

@[simp]
theorem warnings_all : (all rs).warnings = rs.flatMap warnings := by
  induction rs with
  | nil => rfl
  | cons r rs ih => rw [all, warnings_append, ih, List.flatMap_cons]

def Every (P : Issue → Prop) (r : Report) : Prop :=
  (∀ i ∈ r.errors, P i) ∧ ∀ i ∈ r.warnings, P i

@[simp]
theorem every_empty : empty.Every P := by simp [Every, empty]

@[simp]
theorem every_error {message path : String} : (error message path).Every P ↔ P ⟨message, path⟩ := by
  simp [Every, error]

@[simp]
theorem every_warning {message path : String} :
    (warning message path).Every P ↔ P ⟨message, path⟩ := by
  simp [Every, warning]

@[simp]
theorem every_append : (r ++ s).Every P ↔ r.Every P ∧ s.Every P := by
  simp only [Every, errors_append, warnings_append, List.forall_mem_append]
  exact and_and_and_comm

@[simp]
theorem every_all : (all rs).Every P ↔ ∀ r ∈ rs, r.Every P := by
  induction rs with
  | nil => simp [all]
  | cons r rs ih => rw [all, every_append, ih, List.forall_mem_cons]

end Report

section Nodes

def referenceText? (es : Entries) : Option String :=
  match es.get "$ref" with
  | .str ref => some ref
  | _ => none

/-- A text that begins like a pointer into the document and leads to none of its nodes. -/
def isBroken (document : Value) (ref : String) : Bool :=
  match Text.dropStart? "#/" ref with
  | some pointer => !Pointer.leadsInto document pointer
  | none => false

def isExternal (ref : String) : Bool := (Text.dropStart? "#/" ref).isNone

def lacksItems (es : Entries) : Bool := (es.get "type").equals (.str "array") && !es.has "items"

def errorsAt (document : Value) (node : List Step × Entries) : List Issue :=
  ((referenceText? node.2).toList.filter (isBroken document)).map
      (fun ref => ⟨"Ссылка не найдена: " ++ ref, "#" ++ pathText node.1⟩)
    ++ if lacksItems node.2 then [⟨"Для массива не задан ключ `items`", "#" ++ pathText node.1⟩]
      else []

def warningsAt (node : List Step × Entries) : List Issue :=
  ((referenceText? node.2).toList.filter isExternal).map
    fun ref => ⟨"Внешняя ссылка не поддерживается: " ++ ref, "#" ++ pathText node.1⟩

def isOnNode (message : String) : Bool :=
  (Text.dropStart? "Ссылка не найдена: " message).isSome ||
    (Text.dropStart? "Внешняя ссылка не поддерживается: " message).isSome ||
      message == "Для массива не задан ключ `items`"

def Issue.isAtNode (i : Issue) : Bool := isOnNode i.message

variable {steps : List Step} {es : Entries}

theorem referenceText?_eq_none (h : ∀ ref, es.get "$ref" = .str ref → False) :
    referenceText? es = none := by
  unfold referenceText?
  split
  · rename_i ref href
    exact (h ref href).elim
  · rfl

theorem referenceIssues_eq (path : String) : referenceIssues document path es =
    ⟨((referenceText? es).toList.filter (isBroken document)).map
      (fun ref => ⟨"Ссылка не найдена: " ++ ref, path⟩),
    ((referenceText? es).toList.filter isExternal).map
      fun ref => ⟨"Внешняя ссылка не поддерживается: " ++ ref, path⟩⟩ := by
  unfold referenceIssues
  split
  · rename_i ref href
    have htext : referenceText? es = some ref := by rw [referenceText?, href]
    rw [htext, Option.toList_some]
    cases hpointer : Text.dropStart? "#/" ref with
    | none => simp [isBroken, isExternal, hpointer, Report.warning]
    | some pointer =>
      cases hleads : Pointer.leadsInto document pointer <;>
        simp [isBroken, isExternal, hpointer, hleads, Report.error, Report.empty]
  · rename_i hnone
    rw [referenceText?_eq_none hnone]
    rfl

theorem arrayIssues_eq (path : String) : arrayIssues path es =
    ⟨if lacksItems es then [⟨"Для массива не задан ключ `items`", path⟩] else [], []⟩ := by
  unfold arrayIssues lacksItems
  split <;> rfl

theorem nodeIssues_eq {nodes : List (List Step × Entries)}
    (h : document.mappings "#" = nodes.map (Value.located "#")) :
    nodeIssues document = ⟨nodes.flatMap (errorsAt document), nodes.flatMap warningsAt⟩ := by
  have hnode (node : List Step × Entries) :
      referenceIssues document ("#" ++ pathText node.1) node.2 ++
        arrayIssues ("#" ++ pathText node.1) node.2 =
      ⟨errorsAt document node, warningsAt node⟩ := by
    rw [referenceIssues_eq, arrayIssues_eq]
    change Report.mk _ (_ ++ []) = _
    rw [List.append_nil]
    rfl
  have hreports : (document.mappings "#").map
      (fun entry => referenceIssues document entry.1 entry.2 ++ arrayIssues entry.1 entry.2) =
      nodes.map fun node => ⟨errorsAt document node, warningsAt node⟩ := by
    rw [h, List.map_map]
    exact List.map_congr_left fun node _ => hnode node
  rw [nodeIssues, hreports]
  refine Report.mk.injEq _ _ _ _ |>.mpr ⟨?_, ?_⟩
  · rw [Report.errors_all, List.flatMap_map]
  · rw [Report.warnings_all, List.flatMap_map]

end Nodes

section Elsewhere

theorem nodeIssues_isAtNode (document : Value) :
    (nodeIssues document).Every fun i => i.isAtNode = true := by
  rw [nodeIssues, Report.every_all]
  simp only [List.forall_mem_map, Report.every_append, referenceIssues_eq, arrayIssues_eq]
  refine fun node _ => ⟨⟨fun i hi => ?_, fun i hi => ?_⟩, fun i hi => ?_, List.forall_mem_nil _⟩
  · obtain ⟨ref, -, rfl⟩ := List.mem_map.mp hi
    simp [Issue.isAtNode, isOnNode, Text.dropStart?_append]
  · obtain ⟨ref, -, rfl⟩ := List.mem_map.mp hi
    simp [Issue.isAtNode, isOnNode, Text.dropStart?_append]
  · dsimp only at hi
    split_ifs at hi
    · rw [List.mem_singleton.mp hi]
      simp [Issue.isAtNode, isOnNode]
    · cases hi

theorem not_isOnNode_parameter (rest : String) : isOnNode ("Параметр пути " ++ rest) = false := by
  have harray : "Параметр пути " ++ rest ≠ "Для массива не задан ключ `items`" := by
    intro heq
    have hdrop := Text.dropStart?_append "Параметр пути " rest
    rw [heq, show Text.dropStart? "Параметр пути " "Для массива не задан ключ `items`" = none by
      decide] at hdrop
    cases hdrop
  rw [isOnNode, Text.dropStart?_apart (by decide) (by decide),
    Text.dropStart?_apart (by decide) (by decide)]
  simpa using harray

theorem parameterIssues_ok {es : Entries} {route : Scalar} {ofRoute ofOperation : Value}
    {location : String} (h : parameterIssues es route ofRoute ofOperation location = .ok report) :
    ∃ name items declared undeclared unused, route = .str name ∧
      concatenated ofRoute ofOperation = .ok items ∧ declaredNames es items = .ok declared ∧
      missing (distinct ((Naming.placeholders name).map .str)) declared = .ok undeclared ∧
      missing declared (distinct ((Naming.placeholders name).map .str)) = .ok unused ∧
      report = Report.all (undeclared.map fun name =>
          .warning ("Параметр пути " ++ name.literal ++ " не объявлен в parameters") location)
        ++ Report.all (unused.map fun name =>
          .warning ("Параметр пути " ++ name.literal ++ " отсутствует в шаблоне пути")
            location) := by
  obtain ⟨items, hitems, h⟩ := bind_eq_ok.mp h
  obtain ⟨declared, hdeclared, h⟩ := bind_eq_ok.mp h
  cases route with
  | str name =>
    obtain ⟨inRoute, hroute, h⟩ := bind_eq_ok.mp h
    cases pure_eq_ok.mp hroute
    obtain ⟨undeclared, hundeclared, h⟩ := bind_eq_ok.mp h
    obtain ⟨unused, hunused, h⟩ := bind_eq_ok.mp h
    cases pure_eq_ok.mp h
    exact ⟨name, items, declared, undeclared, unused, rfl, hitems, hdeclared, hundeclared, hunused,
      rfl⟩
  | _ => cases h

theorem parameterIssues_every {P : Issue → Prop} {es : Entries} {route : Scalar}
    {ofRoute ofOperation : Value} {location : String}
    (h : parameterIssues es route ofRoute ofOperation location = .ok report)
    (hissue : ∀ text, P ⟨"Параметр пути " ++ text, location⟩) : report.Every P := by
  obtain ⟨_, _, _, undeclared, unused, -, -, -, -, -, rfl⟩ := parameterIssues_ok h
  refine Report.every_append.mpr ⟨Report.every_all.mpr ?_, Report.every_all.mpr ?_⟩ <;>
  · simp only [List.forall_mem_map, Report.every_warning, String.append_assoc]
    exact fun name _ => hissue _

def Report.IsElsewhere (r : Report) : Prop := r.Every fun i => i.isAtNode = false

theorem Report.IsElsewhere.filter_errors (h : report.IsElsewhere) :
    report.errors.filter Issue.isAtNode = [] := by
  rw [List.filter_eq_nil_iff]
  exact fun i hi => by simp [h.1 i hi]

theorem Report.IsElsewhere.filter_warnings (h : report.IsElsewhere) :
    report.warnings.filter Issue.isAtNode = [] := by
  rw [List.filter_eq_nil_iff]
  exact fun i hi => by simp [h.2 i hi]

theorem sectionIssues_isElsewhere (es : Entries) : (sectionIssues es).IsElsewhere := by
  unfold sectionIssues
  refine Report.every_append.mpr ⟨?_, ?_⟩ <;> split
  · exact Report.every_empty
  · exact Report.every_error.mpr (by decide)
  · exact Report.every_empty
  · exact Report.every_error.mpr (by decide)

theorem parameterIssues_isElsewhere {es : Entries} {route : Scalar} {ofRoute ofOperation : Value}
    {location : String} (h : parameterIssues es route ofRoute ofOperation location = .ok report) :
    report.IsElsewhere :=
  parameterIssues_every h not_isOnNode_parameter

theorem operationIssues_isElsewhere {es operation : Entries} {route : Scalar} {method : String}
    {ofRoute : Value} (h : operationIssues es route method ofRoute operation = .ok report) :
    report.IsElsewhere := by
  obtain ⟨parameters, hparameters, h⟩ := bind_eq_ok.mp h
  cases pure_eq_ok.mp h
  refine Report.every_append.mpr ⟨Report.every_append.mpr ⟨?_, ?_⟩, ?_⟩
  · split
    · exact Report.every_empty
    · exact Report.every_error.mpr (show isOnNode "Не задан operationId" = false by decide)
  · split
    · exact Report.every_empty
    · exact Report.every_warning.mpr (show isOnNode "Не заданы responses" = false by decide)
  · exact parameterIssues_isElsewhere hparameters

theorem pathIssues_isElsewhere {es : Entries} {route : Scalar} {path : Value}
    (h : pathIssues es route path = .ok report) : report.IsElsewhere := by
  cases path with
  | map label fields =>
    obtain ⟨reports, hreports, h⟩ := bind_eq_ok.mp h
    cases pure_eq_ok.mp h
    refine Report.every_all.mpr fun r hr => ?_
    obtain ⟨⟨key, operation⟩, -, hr⟩ := exists_left_of_forall₂ (mapM_eq_ok.mp hreports) hr
    dsimp only at hr
    split at hr
    · split at hr
      · exact operationIssues_isElsewhere hr
      · cases hr
        exact Report.every_empty
    · cases hr
      exact Report.every_empty
  | _ =>
    cases h
    exact Report.every_empty

end Elsewhere

theorem operations_isElsewhere {es paths : Entries} {operations : List Report}
    (h : paths.mapM (fun e => pathIssues es e.1 e.2) = .ok operations) :
    (Report.all operations).IsElsewhere := by
  refine Report.every_all.mpr fun r hr => ?_
  obtain ⟨e, -, hpath⟩ := exists_left_of_forall₂ (mapM_eq_ok.mp h) hr
  exact pathIssues_isElsewhere hpath

theorem run_returns {s t : Log} : Returns (run document false) s report t ↔
    check document = .ok report ∧ s ++ report.events = t := by
  rw [run, returns_lift_bind]
  simp only [Telling.tellAll, returns_bind, returns_modify, Bool.false_and, Bool.false_eq_true,
    if_false, returns_pure]
  grind

theorem fails_run_strict {s t : Log} {e : Fault} (h : check document = .ok report) :
    Fails (run document true) s e t ↔ report.errors ≠ [] ∧
      .because (.rejectedByLint report.errors.length) = e ∧ s ++ report.events = t := by
  have hlift (e : Fault) (u : Log) : ¬ Fails (liftM (check document) : Telling Report) s e u := by
    rw [fails_lift, h]
    rintro ⟨heq, -⟩
    cases heq
  rw [run, fails_bind, or_iff_right (hlift e t)]
  simp only [h, returns_lift, Telling.tellAll, fails_bind, not_fails_modify, returns_modify,
    false_or, Bool.true_and]
  constructor
  · rintro ⟨_, _, ⟨hreport, rfl⟩, _, _, rfl, hfails⟩
    cases hreport
    split at hfails
    · rename_i hclean
      obtain ⟨rfl, rfl⟩ := fails_throw.mp hfails
      exact ⟨by simpa [Report.isClean] using hclean, rfl, rfl⟩
    · exact absurd hfails not_fails_pure
  · rintro ⟨herrors, rfl, rfl⟩
    refine ⟨report, s, ⟨rfl, rfl⟩, (), _, rfl, ?_⟩
    rw [if_pos (by simpa [Report.isClean] using herrors)]
    exact fails_throw.mpr ⟨rfl, rfl⟩

/-- The check comes by every mapping of the document, inside of mappings and of lists, and by each
once. What it finds out about references and arrays are the findings at these mappings in preorder.
A strict check fails exactly if there are errors of any kind. -/
theorem run_findings {s t : Log} (hdocument : document.IsTree)
    (h : Returns (run document false) s report t) :
    (∃ nodes, document.IsPreorder nodes ∧ (nodes.map Prod.fst).Nodup ∧
      report.errors.filter Issue.isAtNode = nodes.flatMap (errorsAt document) ∧
      report.warnings.filter Issue.isAtNode = nodes.flatMap warningsAt) ∧
    ((∃ cause location u, Fails (run document true) s (.failure cause location) u) ↔
      report.errors ≠ []) := by
  obtain ⟨nodes, hnodes, hwalk⟩ := hdocument.exists_isPreorder
  obtain ⟨operations, hpaths, hreport⟩ := check_ok (run_returns.mp h).1
  have hoperations := operations_isElsewhere hpaths
  refine ⟨⟨nodes, hnodes, hnodes.nodup hdocument, ?_, ?_⟩, ?_⟩
  · rw [hreport]
    simp only [Report.errors_append, List.filter_append]
    rw [(sectionIssues_isElsewhere _).filter_errors, hoperations.filter_errors, List.nil_append,
      List.append_nil, List.filter_eq_self.mpr (nodeIssues_isAtNode document).1,
      nodeIssues_eq (hwalk "#")]
  · rw [hreport]
    simp only [Report.warnings_append, List.filter_append]
    rw [(sectionIssues_isElsewhere _).filter_warnings, hoperations.filter_warnings,
      List.nil_append, List.append_nil, List.filter_eq_self.mpr (nodeIssues_isAtNode document).2,
      nodeIssues_eq (hwalk "#")]
  · simp only [fails_run_strict (run_returns.mp h).1]
    grind

def looseEnds : Value :=
  .ofEntries [
    (.str "info", .ofEntries [(.str "title", .str "Pets")]),
    (.str "paths", .ofEntries []),
    (.str "components", .ofEntries [(.str "schemas", .ofEntries [
      (.str "Pets", .ofEntries [(.str "type", .str "array")]),
      (.str "Pet", .ofEntries [(.str "anyOf", .list [
        .ofEntries [(.str "$ref", .str "#/components/schemas/Cat")],
        .ofEntries [(.str "$ref", .str "pets.yaml")]])])])])]

theorem looseEnds_isTree : looseEnds.IsTree := by
  simp only [Value.IsTree, looseEnds, Value.ofEntries, Value.Throughout,
    Value.EntriesThroughout, Value.ItemsThroughout, and_true, true_and]
  decide

theorem run_findings_looseEnds : looseEnds.IsTree ∧ ∃ report log,
    Returns (run looseEnds false) [] report log ∧ report.errors ≠ [] ∧
      ∃ nodes, looseEnds.IsPreorder nodes ∧
        report.errors.filter Issue.isAtNode = nodes.flatMap (errorsAt looseEnds) := by
  obtain ⟨report, log, hrun, herrors⟩ : ∃ report log,
      (run looseEnds false).run.run [] = (.ok report, log) ∧ report.errors.isEmpty = false :=
    exists_of_map_eq_some (by decide)
  obtain ⟨⟨nodes, hnodes, -, hfindings, -⟩, -⟩ := run_findings looseEnds_isTree hrun
  exact ⟨looseEnds_isTree, report, log, hrun, by simpa using herrors, nodes, hnodes, hfindings⟩

end ApiBindings.Lint
