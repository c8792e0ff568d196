import ApiBindings.Proofs.Hook.Address

/-!
The names that hooks take apart. Main statements: an interpolation of the route has an argument only
if its name is a word, and all names are distinct exactly if none of the route is one of the names
that hooks give to other arguments.
-/

namespace ApiBindings.Hook

open Operation (Metadata Options Bound Call Route)
open Naming (Segment IsWord)

def routeArguments (m : Metadata) : List String := m.paramsInPath ++ (idName? m).toList

def fixedArguments (m : Metadata) : List String :=
  (if (queryParams? m).isSome then ["params"] else [])
    ++ (if m.verb = "get" then ["queryOptions"] else if (body? m).isSome then ["body"] else [])

section Metadata

variable {m : Metadata}

theorem arguments_eq (hfields : HasPathFields m) (hget : m.verb = "get" → m.idParam = none) :
    arguments m = routeArguments m ++ fixedArguments m := by
  by_cases hv : m.verb = "get"
  · have hname : idName? m = none := by rw [idName?, hget hv]
    simp [arguments, queryArguments, routeArguments, fixedArguments, hv, hname]
  · have hmutation : mutationArguments m = routeArguments m ++ fixedArguments m := by
      rw [mutationArguments, routeArguments, fixedArguments, if_neg hv]
      cases idName? m <;> simp
    rw [arguments, if_neg hv, ← hmutation]
    split_ifs with hempty
    · exact (hfields.mutationArguments_eq_nil_iff.mpr (List.isEmpty_iff.mp hempty)).symm
    · rfl

theorem nodup_routeArguments (hpath : m.paramsInPath.Nodup)
    (hcut : ∀ name ∈ m.idParam, name ∉ m.paramsInPath) : (routeArguments m).Nodup := by
  rw [routeArguments, idName?]
  cases hid : m.idParam with
  | none => simpa using hpath
  | some name =>
    have hname : name ∉ m.paramsInPath := hcut name hid
    dsimp only
    split_ifs with hempty hshadow
    · simpa using hpath
    · rw [Option.toList_some, ← List.concat_eq_append]
      exact hpath.concat hname
    · rw [Option.toList_some, ← List.concat_eq_append]
      exact hpath.concat hshadow

theorem nodup_fixedArguments (m : Metadata) : (fixedArguments m).Nodup := by
  unfold fixedArguments
  split_ifs <;> decide

theorem nodup_arguments_iff (hroute : (routeArguments m).Nodup) :
    (routeArguments m ++ fixedArguments m).Nodup ↔
      ∀ name ∈ routeArguments m, name ∉ fixedArguments m := by
  rw [List.nodup_append]
  constructor
  · rintro ⟨-, -, h⟩ name hname hfixed
    exact h name hname name hfixed rfl
  · intro h
    refine ⟨hroute, nodup_fixedArguments m, ?_⟩
    rintro name hname other hfixed rfl
    exact h name hname hfixed

end Metadata

section Bound

variable {components : Value} {options : Options} {c : Call} {s t : Session} {b : Bound}
  {route : String}

theorem bound_arguments_eq (h : Returns (Operation.bind components options c) s b t) :
    arguments b.metadata = routeArguments b.metadata ++ fixedArguments b.metadata := by
  obtain ⟨id, p, log, u, hbound⟩ := Operation.bind_steps h
  obtain ⟨route, _, _, hmade⟩ := Operation.plan_returns hbound.planned
  obtain ⟨hverb, -, hid, -⟩ := Operation.bind_route hmade.routeText h
  refine arguments_eq (hbound.metadata ▸ Operation.plan_pathMembers hbound.planned) fun hget => ?_
  rw [hverb] at hget
  rcases Route.of_cases route c.verb options with hwhole | ⟨-, -, -, hdelete, -⟩
  · rw [hid, hwhole]
  · exact absurd (hget.symm.trans hdelete) (by decide)

theorem bound_requests (hb : options.bindings = true)
    (h : Returns (Operation.bind components options c) s b t) :
    ∃ statement ∈ b.hooks.statements, statement.name = "use" ++ b.metadata.componentName ∧
      (ofMode options.encodingMode).Requests b.metadata (arguments b.metadata)
        (address b.metadata) statement.text := by
  obtain ⟨id, p, log, u, hbound⟩ := Operation.bind_steps h
  have hfields : HasPathFields b.metadata :=
    hbound.metadata ▸ Operation.plan_pathMembers hbound.planned
  refine ⟨(ofMode options.encodingMode).constant b.metadata, ?_, constant_name _ _,
    requests_constant _ hfields.mutationArguments_ne⟩
  rw [Operation.statements_of_bindingsOf hbound.hooks, if_pos hb]
  exact constant_mem_block _ _

theorem bound_routeArguments_nodup (hroute : c.route = .str route)
    (hdistinct : (Naming.placeholders route).Nodup)
    (h : Returns (Operation.bind components options c) s b t) :
    (routeArguments b.metadata).Nodup := by
  obtain ⟨-, -, -, hpath⟩ := Operation.bind_route hroute h
  refine nodup_routeArguments ?_ fun name hname => ?_
  · rw [hpath]
    exact hdistinct.filter _
  · rw [hpath]
    simp [Option.mem_def.mp hname]

/-- The hook of an operation takes no name apart twice, unless an argument of its route has the name
that hooks give to the query parameters, to the body or to the options of a query. -/
theorem bound_arguments_nodup_iff (hb : options.bindings = true) (hroute : c.route = .str route)
    (hdistinct : (Naming.placeholders route).Nodup)
    (h : Returns (Operation.bind components options c) s b t) :
    ∃ statement ∈ b.hooks.statements, statement.name = "use" ++ b.metadata.componentName ∧
      ∃ names, (ofMode options.encodingMode).Requests b.metadata names (address b.metadata)
          statement.text ∧
        names = routeArguments b.metadata ++ fixedArguments b.metadata ∧
        (names.Nodup ↔ ∀ name ∈ routeArguments b.metadata, name ∉ fixedArguments b.metadata) := by
  obtain ⟨statement, hmem, hname, hrequests⟩ := bound_requests hb h
  rw [bound_arguments_eq h] at hrequests
  exact ⟨statement, hmem, hname, _, hrequests, rfl,
    nodup_arguments_iff (bound_routeArguments_nodup hroute hdistinct h)⟩

theorem bound_arguments_nodup_iff_petRemoval :
    (Naming.placeholders (String.ofList (Naming.routeChars petRoute))).Nodup ∧
    ∃ b t, Returns (Operation.bind .null .default petRemoval) .start b t ∧
      ∃ statement ∈ b.hooks.statements, statement.name = "use" ++ b.metadata.componentName ∧
        ∃ names, (ofMode Options.default.encodingMode).Requests b.metadata names
            (address b.metadata) statement.text ∧
          names = routeArguments b.metadata ++ fixedArguments b.metadata ∧
          (names.Nodup ↔
            ∀ name ∈ routeArguments b.metadata, name ∉ fixedArguments b.metadata) := by
  have hdistinct : (Naming.placeholders (String.ofList (Naming.routeChars petRoute))).Nodup := by
    decide
  obtain ⟨b, t, h⟩ := petRemoval_returns
  exact ⟨hdistinct, b, t, h, bound_arguments_nodup_iff rfl rfl hdistinct h⟩

def reportReading : Call where
  operation := [(.str "operationId", .str "report"), (.str "parameters",
    .list [.ofEntries [(.str "name", .str "from"), (.str "in", .str "query")]])]
  verb := "get"
  route := .str "/reports/\x7bparams\x7d"
  routeParameters := .null

theorem reportReading_repeats :
    (Naming.placeholders "/reports/\x7bparams\x7d").Nodup ∧
    ∃ b t, Returns (Operation.bind .null .default reportReading) .start b t ∧
      ∃ statement ∈ b.hooks.statements, statement.name = "use" ++ b.metadata.componentName ∧
        ∃ names, (ofMode Options.default.encodingMode).Requests b.metadata names
            (address b.metadata) statement.text ∧
          names = ["params", "params", "queryOptions"] ∧ ¬ names.Nodup := by
  obtain ⟨b, t, h, hnames⟩ :
      ∃ b t, Returns (Operation.bind .null .default reportReading) .start b t ∧
      arguments b.metadata = ["params", "params", "queryOptions"] :=
    exists_of_map_eq_some (by decide +kernel)
  obtain ⟨statement, hmem, hname, hrequests⟩ := bound_requests rfl h
  rw [hnames] at hrequests
  exact ⟨by decide, b, t, h, statement, hmem, hname, _, hrequests, rfl, by decide⟩

end Bound

section Words

variable {components : Value} {options : Options} {c : Call} {s t : Session} {b : Bound}
  {route : String} {segments : List Segment}

theorem fixedArguments_word {m : Metadata} {x : String} (h : x ∈ fixedArguments m) :
    IsWord x.toList := by
  have hwords : ∀ y ∈ ["params", "queryOptions", "body"], IsWord y.toList := by decide
  have hsub : fixedArguments m ⊆ ["params", "queryOptions", "body"] := by
    unfold fixedArguments
    split_ifs <;> decide
  exact hwords x (hsub h)

theorem idName?_word {m : Metadata} {x : String} (hcut : ∀ name ∈ m.idParam, IsWord name.toList)
    (h : idName? m = some x) : IsWord x.toList := by
  unfold idName? at h
  split at h
  · cases h
  · rename_i name hid
    split_ifs at h
    · cases h
      exact hcut x hid
    · cases h
      decide

theorem bound_arguments_word (hroute : c.route = .str route)
    (h : Returns (Operation.bind components options c) s b t) :
    ∀ x ∈ arguments b.metadata, IsWord x.toList := by
  obtain ⟨-, -, hid, hpath⟩ := Operation.bind_route hroute h
  intro x hx
  rw [bound_arguments_eq h, routeArguments] at hx
  rcases List.mem_append.mp hx with hx | hfixed
  · rcases List.mem_append.mp hx with hx | hcut
    · rw [hpath] at hx
      exact Naming.isWord_of_mem_placeholders (List.mem_filter.mp hx).1
    · refine idName?_word (fun name hname => ?_) (Option.mem_toList.mp hcut)
      exact Naming.isWord_of_mem_placeholders (Route.idParam_mem (hid ▸ hname))
  · exact fixedArguments_word hfixed

/-- In a route whose placeholders are any names in braces, just those are found whose names are
words. Of the interpolations that are left for the hook, all words are arguments but for the name
that a deletion has taken, and nothing else is. -/
theorem bound_finds_words (hdelimited : ∀ x ∈ segments, x.IsDelimited)
    (hroute : c.route = .str (String.ofList (Naming.routeChars segments)))
    (h : Returns (Operation.bind components options c) s b t) :
    (∀ name ∈ Naming.names segments, String.ofList name ∈ b.metadata.paramsInPath ∨
        b.metadata.idParam = some (String.ofList name) ↔ IsWord name) ∧
      ∃ kept, kept <+: segments ∧
        b.metadata.route = String.ofList (Naming.templateChars kept) ∧
        ∀ name ∈ Naming.names kept,
          (IsWord name → b.metadata.idParam ≠ some (String.ofList name) →
            String.ofList name ∈ arguments b.metadata) ∧
          (String.ofList name ∈ arguments b.metadata → IsWord name) := by
  obtain ⟨-, htemplate, hid, hpath⟩ := Operation.bind_route hroute h
  have hseen {name : List Char} (hname : name ∈ Naming.names segments) :
      String.ofList name ∈ b.metadata.paramsInPath ↔
        IsWord name ∧ b.metadata.idParam ≠ some (String.ofList name) := by
    rw [hpath, List.mem_filter, Naming.mem_placeholders_route hdelimited hname, decide_eq_true_iff]
  refine ⟨fun name hname => ?_, ?_⟩
  · rw [hseen hname]
    by_cases hcut : b.metadata.idParam = some (String.ofList name)
    · have hword : IsWord name :=
        (Naming.mem_placeholders_route hdelimited hname).mp (Route.idParam_mem (hid ▸ hcut))
      simp [hcut, hword]
    · simp [hcut]
  · obtain ⟨kept, hkept, hchars⟩ := Route.template_of_segments hdelimited c.verb options
    refine ⟨kept, hkept, htemplate.trans hchars, fun name hname => ⟨fun hword hother => ?_, ?_⟩⟩
    · rw [bound_arguments_eq h, routeArguments, List.append_assoc]
      exact List.mem_append_left _
        ((hseen (Naming.mem_names_of_prefix hkept hname)).mpr ⟨hword, hother⟩)
    · intro hargument
      rw [← String.toList_ofList (l := name)]
      exact bound_arguments_word hroute h _ hargument

/-- The route `/pets/{pet-id}/toys/{toyId}`. -/
def toyRoute : List Segment :=
  "/pets/".toList.map Segment.char ++ [Segment.placeholder "pet-id".toList]
    ++ "/toys/".toList.map Segment.char ++ [Segment.placeholder "toyId".toList]

def toyReading : Call where
  operation := [(.str "operationId", .str "toy")]
  verb := "get"
  route := .str (String.ofList (Naming.routeChars toyRoute))
  routeParameters := .null

theorem bound_finds_words_toyReading :
    (∀ x ∈ toyRoute, x.IsDelimited) ∧
    ∃ b t, Returns (Operation.bind .null .default toyReading) .start b t ∧
      (∀ name ∈ Naming.names toyRoute, String.ofList name ∈ b.metadata.paramsInPath ∨
          b.metadata.idParam = some (String.ofList name) ↔ IsWord name) ∧
        ∃ kept, kept <+: toyRoute ∧
          b.metadata.route = String.ofList (Naming.templateChars kept) ∧
          ∀ name ∈ Naming.names kept,
            (IsWord name → b.metadata.idParam ≠ some (String.ofList name) →
              String.ofList name ∈ arguments b.metadata) ∧
            (String.ofList name ∈ arguments b.metadata → IsWord name) := by
  have hdelimited : ∀ x ∈ toyRoute, x.IsDelimited := by decide
  obtain ⟨b, t, h⟩ : ∃ b t, Returns (Operation.bind .null .default toyReading) .start b t :=
    exists_of_isSome (by decide +kernel)
  exact ⟨hdelimited, b, t, h, bound_finds_words hdelimited rfl h⟩

theorem toyReading_misses :
    (∀ x ∈ toyRoute, x.IsDelimited) ∧ toyReading.verb ∈ Operation.verbs ∧
    ∃ b t, Returns (Operation.bind .null .default toyReading) .start b t ∧
      ¬ (∀ name ∈ Naming.names toyRoute, String.ofList name ∈ b.metadata.paramsInPath ∨
        b.metadata.idParam = some (String.ofList name)) ∧
      b.metadata.route = "/pets/$\x7bpet-id\x7d/toys/$\x7btoyId\x7d" ∧
      arguments b.metadata = ["toyId", "queryOptions"] := by
  obtain ⟨b, t, h, hmeta⟩ : ∃ b t, Returns (Operation.bind .null .default toyReading) .start b t ∧
      (b.metadata.paramsInPath, b.metadata.idParam, b.metadata.route, arguments b.metadata) =
        (["toyId"], none, "/pets/$\x7bpet-id\x7d/toys/$\x7btoyId\x7d", ["toyId", "queryOptions"]) :=
    exists_of_map_eq_some (by decide +kernel)
  simp only [Prod.mk.injEq] at hmeta
  obtain ⟨hpath, hid, hroute, harguments⟩ := hmeta
  refine ⟨by decide, by decide, b, t, h, fun hall => ?_, hroute, harguments⟩
  have hpet := hall "pet-id".toList (by decide)
  rw [hpath, hid] at hpet
  exact absurd hpet (by decide)

end Words

end ApiBindings.Hook
