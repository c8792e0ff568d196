import ApiBindings.Proofs.Operation.Bind
import ApiBindings.Proofs.Operation.Route
import Mathlib.Tactic.SplitIfs

/-!
The addresses that hooks ask for. Main statement: with the arguments that a hook takes apart in
the places of its interpolations, its address is the route of the operation.
-/

namespace ApiBindings.Hook

open Operation (Metadata Options Bound Call Plan Route)
open Naming (Segment)

def address (m : Metadata) : String := if m.verb = "get" then m.route else fullRoute m

def arguments (m : Metadata) : List String :=
  if m.verb = "get" then queryArguments m
  else if (mutationFields m).isEmpty then [] else mutationArguments m

def taken (names : List String) : String := if names = [] then "" else destructured names

/-- The text takes the arguments apart and sends its request to the template of the address. -/
def Requests (h : Hook) (m : Metadata) (names : List String) (address text : String) : Prop :=
  ∃ front between back, text = front ++ "(" ++ taken names ++ between ++ "axios." ++ m.verb ++ "<"
    ++ m.generics.response ++ ">(" ++ h.template address ++ back

theorem requests_query (h : Hook) {m : Metadata} (hv : m.verb = "get") :
    h.Requests m (arguments m) (address m) (queryConstant h m).text := by
  have hne : queryArguments m ≠ [] := by simp [queryArguments]
  refine ⟨"export const use" ++ m.componentName ++ " = ",
    ": Use" ++ m.componentName ++ "Props) =>\n"
      ++ "  useQuery<" ++ m.generics.response ++ ", " ++ m.generics.error ++ ">(\n"
      ++ "    " ++ queryKey h m ++ ",\n" ++ "    () => ",
    config m ++ ").then((res) => res.data),\n"
      ++ "    \x7b refetchOnMount: false, ...queryOptions \x7d\n"
      ++ "  );\n\n", ?_⟩
  rw [arguments, if_pos hv, address, if_pos hv, taken, if_neg hne, hv]
  apply String.toList_inj.mp
  simp [queryConstant, Declaration.Statement.text, Declaration.Kind.keyword]

theorem requests_mutation (h : Hook) {m : Metadata} (hv : m.verb ≠ "get")
    (hne : (mutationFields m).isEmpty = false → mutationArguments m ≠ []) :
    h.Requests m (arguments m) (address m) (mutationConstant h m).text := by
  let types := m.generics.response ++ ", " ++ m.generics.error ++ ", "
    ++ (if (mutationFields m).isEmpty then "void" else variablesName m)
  let body := if m.verb ∈ bodyVerbs then
      ", " ++ (if (body? m).isSome then "body" else "undefined")
    else ""
  have htaken : "(" ++ taken (arguments m) ++ ")" =
      if (mutationFields m).isEmpty then "()"
      else "(" ++ destructured (mutationArguments m) ++ ")" := by
    rw [arguments, if_neg hv]
    cases hf : (mutationFields m).isEmpty with
    | true => rfl
    | false => simp [taken, hne hf]
  refine ⟨"export const use" ++ m.componentName ++ " = (\n"
      ++ "  mutationOptions?: UseMutationOptions<" ++ types ++ ">\n"
      ++ ") =>\n" ++ "  useMutation<" ++ types ++ ">(\n" ++ "    ",
    ") => ",
    body ++ config m ++ ")" ++ ".then((res) => res.data),\n" ++ "    mutationOptions\n"
      ++ "  );\n\n", ?_⟩
  rw [address, if_neg hv]
  simp only [Declaration.Statement.text, mutationConstant]
  delta request
  rw [← htaken]
  apply String.toList_inj.mp
  simp [Declaration.Kind.keyword, types, body]

def constant (h : Hook) (m : Metadata) : Declaration.Statement :=
  if m.verb = "get" then queryConstant h m else mutationConstant h m

theorem constant_name (h : Hook) (m : Metadata) :
    (h.constant m).name = "use" ++ m.componentName := by
  unfold constant
  split_ifs <;> rfl

theorem constant_mem_block (h : Hook) (m : Metadata) : h.constant m ∈ (h.block m).statements := by
  unfold constant
  by_cases hv : m.verb = "get"
  · simp [block, if_pos hv, query]
  · simp [block, if_neg hv, mutation]

theorem requests_constant (h : Hook) {m : Metadata}
    (hne : (mutationFields m).isEmpty = false → mutationArguments m ≠ []) :
    h.Requests m (arguments m) (address m) (h.constant m).text := by
  unfold constant
  by_cases hv : m.verb = "get"
  · rw [if_pos hv]
    exact requests_query h hv
  · rw [if_neg hv]
    exact requests_mutation h hv hne

theorem requests_block (h : Hook) {m : Metadata}
    (hne : (mutationFields m).isEmpty = false → mutationArguments m ≠ []) :
    ∃ statement ∈ (h.block m).statements,
      h.Requests m (arguments m) (address m) statement.text :=
  ⟨h.constant m, h.constant_mem_block m, h.requests_constant hne⟩

def HasPathFields (m : Metadata) : Prop := m.paramsTypes = "" ↔ m.paramsInPath = []

theorem HasPathFields.mutationArguments_eq_nil_iff {m : Metadata} (h : HasPathFields m) :
    mutationArguments m = [] ↔ mutationFields m = [] := by
  have hpath : m.paramsInPath = [] ↔ pathFields m = [] := by
    refine h.symm.trans ?_
    rw [pathFields]
    split_ifs with htypes <;> simp [htypes]
  simp only [mutationArguments, mutationFields, List.append_eq_nil_iff, hpath]
  cases idName? m <;> cases queryParams? m <;> cases body? m <;> simp

theorem HasPathFields.mutationArguments_ne {m : Metadata} (h : HasPathFields m)
    (hf : (mutationFields m).isEmpty = false) : mutationArguments m ≠ [] := by
  intro ha
  rw [h.mutationArguments_eq_nil_iff.mp ha] at hf
  cases hf

theorem HasPathFields.mem_arguments {m : Metadata} (h : HasPathFields m) {x : String}
    (hx : x ∈ m.paramsInPath) : x ∈ arguments m := by
  by_cases hv : m.verb = "get"
  · rw [arguments, if_pos hv, queryArguments, List.append_assoc]
    exact List.mem_append_left _ hx
  · have htypes : m.paramsTypes ≠ "" := fun he => by simp [h.mp he] at hx
    have hfields : (mutationFields m).isEmpty = false := by
      simp [mutationFields, pathFields, htypes]
    rw [arguments, if_neg hv, hfields, mutationArguments]
    simp [hx]

theorem idName_mem_arguments {m : Metadata} {x : String} (hv : m.verb ≠ "get")
    (hx : idName? m = some x) : x ∈ arguments m := by
  have hfields : (mutationFields m).isEmpty = false := by simp [mutationFields, hx]
  rw [arguments, if_neg hv, hfields, mutationArguments, hx]
  simp

/-- The value of an argument: of the cut placeholder for the argument that stands in its place, of
the placeholder of its own name for any other. -/
def argumentValue (m : Metadata) (value : String → String) (x : String) : String :=
  if idName? m = some x then value (m.idParam.getD x) else value x

def fillText (value : String → String) (segments : List Segment) : List Char :=
  Naming.fill (fun n => (value (String.ofList n)).toList) segments

/-- As a template the address interpolates arguments only, and with their values in it it is the
text of the route. -/
def Rebuilds (m : Metadata) (address : String) (route : List Segment) : Prop :=
  ∃ parts, Naming.readTemplate none address.toList = some parts ∧
    (∀ n ∈ Naming.names parts, String.ofList n ∈ arguments m) ∧
    ∀ value, fillText (argumentValue m value) parts = fillText value route

theorem rebuilds_whole {m : Metadata} {segments : List Segment}
    (hplain : ∀ x ∈ segments, x.IsPlain) (hfields : HasPathFields m)
    (hroute : m.route = String.ofList (Naming.templateChars segments)) (hid : m.idParam = none)
    (hpath : m.paramsInPath = (Naming.names segments).map String.ofList) :
    Rebuilds m (address m) segments := by
  have hname : idName? m = none := by rw [idName?, hid]
  have haddress : address m = m.route := by
    rw [address, fullRoute, hname]
    split <;> rfl
  refine ⟨segments, ?_, fun n hn => ?_, fun value => ?_⟩
  · rw [haddress, hroute, String.toList_ofList, Naming.readTemplate_templateChars hplain]
  · refine hfields.mem_arguments ?_
    rw [hpath]
    exact List.mem_map_of_mem hn
  · refine Naming.fill_congr fun n _ => ?_
    rw [argumentValue, hname, if_neg (by simp)]

theorem idName?_cut {m : Metadata} {front : List Segment} {name : List Char} (hne : name ≠ [])
    (hdistinct : name ∉ Naming.names front) (hid : m.idParam = some (String.ofList name))
    (hpath : m.paramsInPath = (Naming.names front).map String.ofList) :
    ∃ x, idName? m = some (String.ofList x) ∧ (x = name ∨ x = ['i', 'd']) ∧
      x ∉ Naming.names front := by
  have hname : String.ofList name ≠ "" := fun he => hne (String.ofList_inj.mp he)
  rw [idName?, hid]
  dsimp only
  rw [if_neg hname]
  split_ifs with hmem
  · exact ⟨name, rfl, .inl rfl, hdistinct⟩
  · refine ⟨['i', 'd'], rfl, .inr rfl, fun hx => hmem ?_⟩
    rw [hpath]
    exact List.mem_map_of_mem hx

theorem rebuilds_cut {m : Metadata} {front : List Segment} {name : List Char}
    (hplain : ∀ x ∈ front ++ [Segment.char '/', .placeholder name], x.IsPlain)
    (hdistinct : name ∉ Naming.names front) (hverb : m.verb ≠ "get") (hfields : HasPathFields m)
    (hroute : m.route = String.ofList (Naming.templateChars front))
    (hid : m.idParam = some (String.ofList name))
    (hpath : m.paramsInPath = (Naming.names front).map String.ofList) :
    Rebuilds m (address m) (front ++ [Segment.char '/', .placeholder name]) := by
  have hcut : Segment.IsPlain (.placeholder name) := hplain _ (by simp)
  obtain ⟨x, hx, hcase, hfresh⟩ := idName?_cut hcut.1 hdistinct hid hpath
  have hargument : Segment.IsPlain (.placeholder x) := by
    rcases hcase with rfl | rfl
    · exact hcut
    · exact ⟨by simp, List.all_eq_true.mp (by decide)⟩
  have hparts : ∀ y ∈ front ++ [Segment.char '/', .placeholder x], y.IsPlain := by
    intro y hy
    rcases List.mem_append.mp hy with hy | hy
    · exact hplain y (List.mem_append_left _ hy)
    · rcases List.mem_cons.mp hy with rfl | hy
      · exact hplain _ (by simp)
      · rwa [List.mem_singleton.mp hy]
  have haddress : (address m).toList =
      Naming.templateChars (front ++ [Segment.char '/', .placeholder x]) := by
    rw [address, if_neg hverb, fullRoute, hx, hroute, Naming.templateChars_append]
    simp [Naming.templateChars]
  refine ⟨front ++ [Segment.char '/', .placeholder x], ?_, fun n hn => ?_, fun value => ?_⟩
  · rw [haddress, Naming.readTemplate_templateChars hparts]
  · rw [Naming.names_append, List.mem_append] at hn
    rcases hn with hn | hn
    · refine hfields.mem_arguments ?_
      rw [hpath]
      exact List.mem_map_of_mem hn
    · rw [List.mem_singleton.mp hn]
      exact idName_mem_arguments hverb hx
  -- the argument in the place of the cut placeholder is none of those in front of it
  · have hfront : fillText (argumentValue m value) front = fillText value front := by
      refine Naming.fill_congr fun n hn => ?_
      have hother : idName? m ≠ some (String.ofList n) := by
        rw [hx]
        intro he
        exact hfresh (String.ofList_inj.mp (Option.some.inj he) ▸ hn)
      rw [argumentValue, if_neg hother]
    have hlast : argumentValue m value (String.ofList x) = value (String.ofList name) := by
      rw [argumentValue, if_pos hx, hid]
      rfl
    rw [fillText, fillText, Naming.fill_append, Naming.fill_append]
    rw [fillText, fillText] at hfront
    rw [hfront]
    simp only [Naming.fill, hlast]

theorem ending_of_plain {front : List Segment} {name ending : List Char}
    (hending : ending ∈ Naming.endings)
    (hplain : ∀ x ∈ front ++ Segment.char '/' :: .placeholder name :: ending.map .char, x.IsPlain) :
    ending.map Segment.char = [] ∨ ending.map Segment.char = [.char '/'] := by
  have hbreak : ∀ e ∈ Naming.endings, '\n' ∉ e → e = [] ∨ e = ['/'] := by decide
  have hno : '\n' ∉ ending := by
    intro hmem
    have hchar : Segment.IsPlain (.char '\n') := hplain _ (by simp [hmem])
    exact hchar (by decide)
  rcases hbreak ending hending hno with rfl | rfl
  · exact .inl rfl
  · exact .inr rfl

theorem parameters_segments {segments : List Segment} (verb : String) (options : Options)
    (hplain : ∀ x ∈ segments, x.IsPlain) {r : Route}
    (hr : r = Route.of (String.ofList (Naming.routeChars segments)) verb options) :
    r.parameters verb = ((Naming.names segments).map String.ofList).filter
      fun name => r.idParam ≠ some name := by
  rw [hr, Route.parameters_of, Naming.placeholders_plain hplain]

theorem plan_rebuilds {components : Value} {options : Options} {c : Call} {id : Scalar}
    {s t : Log} {p : Plan} {segments : List Segment} (operation : Entries)
    (hroute : c.route = .str (String.ofList (Naming.routeChars segments)))
    (hplain : ∀ x ∈ segments, x.IsPlain) (hdistinct : (Naming.names segments).Nodup)
    (h : Returns (c.plan components options id) s p t) :
    Rebuilds (p.metadata operation) (address (p.metadata operation))
      (if p.route.idParam.isSome then Naming.dropSlash segments else segments) := by
  have hfields : HasPathFields (p.metadata operation) := Operation.plan_pathMembers h
  obtain ⟨text, parameters, u, hmade⟩ := Operation.plan_returns h
  have htext : text = String.ofList (Naming.routeChars segments) :=
    Scalar.str.inj (hmade.routeText.symm.trans hroute)
  have hr := hmade.route
  rw [htext] at hr
  have hpath := hmade.pathParameters.trans (parameters_segments c.verb options hplain hr)
  rcases Route.of_segments (fun x hx => (hplain x hx).isDelimited) c.verb options hr with
    ⟨hid, htemplate⟩ | ⟨front, name, ending, hending, hdelete, rfl, htemplate, hid⟩
  -- no placeholder is taken, or the last one with what stands behind it
  · have hall : p.pathParameters = (Naming.names segments).map String.ofList := by
      rw [hpath, hid, List.filter_eq_self]
      simp
    rw [hid]
    exact rebuilds_whole hplain hfields htemplate hid hall
  · have hcut : Naming.dropSlash (front ++ Segment.char '/' :: .placeholder name ::
        ending.map .char) = front ++ [Segment.char '/', .placeholder name] :=
      Naming.dropSlash_closing (ending_of_plain hending hplain)
    have hnames : Naming.names (front ++ Segment.char '/' :: .placeholder name ::
        ending.map .char) = Naming.names front ++ [name] := by
      rw [Naming.names_append, Naming.names, Naming.names, Naming.names_map_char]
    have hfresh : name ∉ Naming.names front := by
      rw [hnames, List.nodup_append] at hdistinct
      exact fun hn => hdistinct.2.2 name hn name List.mem_cons_self rfl
    have hfront : p.pathParameters = (Naming.names front).map String.ofList := by
      have hothers : ∀ x ∈ (Naming.names front).map String.ofList, x ≠ String.ofList name := by
        intro x hx he
        obtain ⟨n, hn, rfl⟩ := List.mem_map.mp hx
        exact hfresh (String.ofList_inj.mp he ▸ hn)
      rw [hpath, hnames, hid, List.map_append, List.filter_append, List.filter_eq_self.mpr]
      · simp
      · exact fun x hx => decide_eq_true fun he => hothers x hx (Option.some.inj he).symm
    have hkept : ∀ x ∈ front ++ [Segment.char '/', .placeholder name], x.IsPlain := by
      intro x hx
      refine hplain x ?_
      simp only [List.mem_append, List.mem_cons, List.not_mem_nil, or_false] at hx ⊢
      grind
    have hget : (p.metadata operation).verb ≠ "get" := by
      rw [show (p.metadata operation).verb = p.verb from rfl, hmade.verb, hdelete]
      decide
    rw [hid, Option.isSome_some, if_pos rfl, hcut]
    exact rebuilds_cut hkept hfresh hget hfields htemplate hid hfront

/-- The requests of bound operations go to their routes. A deletion that has cut its last
placeholder off asks for the route without a slash at its end. -/
theorem address_rebuilds_route {components : Value} {options : Options} {c : Call} {s t : Session}
    {b : Bound} {segments : List Segment} (hb : options.bindings = true)
    (hroute : c.route = .str (String.ofList (Naming.routeChars segments)))
    (hplain : ∀ x ∈ segments, x.IsPlain) (hdistinct : (Naming.names segments).Nodup)
    (h : Returns (Operation.bind components options c) s b t) :
    ∃ statement ∈ b.hooks.statements, ∃ address,
      (ofMode options.encodingMode).Requests b.metadata (arguments b.metadata) address
        statement.text ∧
      Rebuilds b.metadata address
        (if b.metadata.idParam.isSome then Naming.dropSlash segments else segments) := by
  obtain ⟨id, p, log, u, hbound⟩ := Operation.bind_steps h
  have hfields : HasPathFields b.metadata :=
    hbound.metadata ▸ Operation.plan_pathMembers hbound.planned
  obtain ⟨statement, hmem, hrequests⟩ :=
    requests_block (ofMode options.encodingMode) hfields.mutationArguments_ne
  refine ⟨statement, ?_, address b.metadata, hrequests, ?_⟩
  · rwa [Operation.statements_of_bindingsOf hbound.hooks, if_pos hb]
  · rw [hbound.metadata]
    exact plan_rebuilds c.operation hroute hplain hdistinct hbound.planned

/-- The route `/owners/{id}/pets/{petId}/`. -/
def petRoute : List Segment :=
  "/owners/".toList.map Segment.char ++ [Segment.placeholder "id".toList]
    ++ "/pets/".toList.map Segment.char ++ [Segment.placeholder "petId".toList, .char '/']

def petRemoval : Call where
  operation := [(.str "operationId", .str "removePet")]
  verb := "delete"
  route := .str (String.ofList (Naming.routeChars petRoute))
  routeParameters := .null

theorem petRemoval_returns :
    ∃ b t, Returns (Operation.bind .null .default petRemoval) .start b t :=
  exists_of_isSome (by decide +kernel)

theorem address_rebuilds_route_petRemoval :
    (∀ x ∈ petRoute, x.IsPlain) ∧ (Naming.names petRoute).Nodup ∧
    ∃ b t, Returns (Operation.bind .null .default petRemoval) .start b t ∧
      ∃ statement ∈ b.hooks.statements, ∃ address,
        (ofMode Options.default.encodingMode).Requests b.metadata (arguments b.metadata) address
          statement.text ∧
        Rebuilds b.metadata address
          (if b.metadata.idParam.isSome then Naming.dropSlash petRoute else petRoute) := by
  have hplain : ∀ x ∈ petRoute, x.IsPlain := by decide
  have hdistinct : (Naming.names petRoute).Nodup := by decide
  obtain ⟨b, t, h⟩ := petRemoval_returns
  exact ⟨hplain, hdistinct, b, t, h, address_rebuilds_route rfl rfl hplain hdistinct h⟩

end ApiBindings.Hook
