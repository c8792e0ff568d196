import ApiBindings.Operation.Bind
import ApiBindings.Proofs.Declaration.Unmarked

/-!
The markers in hooks. Main statements: every hook holds the markers of the helpers that it calls,
and no others are there unless a type or a text of the document brings them in.
-/

namespace ApiBindings.Hook

open Text (markers stops Occurs Quiet Fence Stopless)
open Operation (Metadata)
open Declaration (Statement Block)

variable {h : Hook} {m : Metadata} {w : String}

theorem occurs_block {d : Statement} {x : String} (hd : d ∈ (h.block m).statements)
    (hx : Occurs x d.after) : Occurs x (h.block m).text :=
  (hx.append_left _).trans (Block.occurs_statement hd)

theorem occurs_template (hencodes : h.encodes = true) (route : String) :
    Occurs "encode`" (h.template route) := by
  rw [template, hencodes, if_pos rfl]
  have hmark : Occurs "encode`" ("encode" ++ "`") := by decide
  exact (hmark.append_right route).append_right "`"

section Query

variable (hv : m.verb = "get")
include hv

theorem block_query : (h.block m).statements = h.query m := by
  rw [block, if_pos hv]

theorem query_occurs {x : String} (hx : Occurs x (queryConstant h m).after) :
    Occurs x (h.block m).text := by
  refine occurs_block ?_ hx
  rw [block_query hv]
  exact List.mem_cons_of_mem _ List.mem_cons_self

theorem useQuery_occurs : Occurs "useQuery<" (h.block m).text := by
  have hcall : Occurs "useQuery<" "  useQuery<" := by decide
  refine query_occurs hv ?_
  unfold queryConstant
  iterate 15 refine Occurs.append_right ?_ _
  exact hcall.append_left _

theorem useInvalidateQuery_occurs : Occurs "useInvalidateQuery(" (h.block m).text := by
  have hcall : Occurs "useInvalidateQuery(" "  useInvalidateQuery(" := by decide
  have hmem : invalidateConstant h m ∈ (h.block m).statements := by
    rw [block_query hv]
    exact List.mem_cons_of_mem _ (List.mem_cons_of_mem _ List.mem_cons_self)
  refine occurs_block hmem ?_
  unfold invalidateConstant
  iterate 4 refine Occurs.append_right ?_ _
  exact hcall.append_left _

theorem query_encodes (hencodes : h.encodes = true) : Occurs "encode`" (h.block m).text := by
  refine query_occurs hv ?_
  unfold queryConstant
  iterate 4 refine Occurs.append_right ?_ _
  exact (occurs_template hencodes m.route).append_left _

theorem query_response : Occurs m.generics.response (h.block m).text := by
  refine query_occurs hv ?_
  unfold queryConstant
  iterate 14 refine Occurs.append_right ?_ _
  exact (Occurs.refl _).append_left _

theorem query_error : Occurs m.generics.error (h.block m).text := by
  refine query_occurs hv ?_
  unfold queryConstant
  iterate 12 refine Occurs.append_right ?_ _
  exact (Occurs.refl _).append_left _

end Query

section Mutation

variable (hv : m.verb ≠ "get")
include hv

theorem block_mutation : (h.block m).statements = h.mutation m := by
  rw [block, if_neg hv]

theorem mutation_occurs {x : String} (hx : Occurs x (mutationConstant h m).after) :
    Occurs x (h.block m).text := by
  refine occurs_block ?_ hx
  rw [block_mutation hv]
  exact List.mem_append_right _ List.mem_cons_self

theorem useMutation_occurs : Occurs "useMutation<" (h.block m).text := by
  have hcall : Occurs "useMutation<" "  useMutation<" := by decide
  refine mutation_occurs hv ?_
  unfold mutationConstant
  iterate 9 refine Occurs.append_right ?_ _
  exact hcall.append_left _

theorem mutation_encodes (hencodes : h.encodes = true) : Occurs "encode`" (h.block m).text := by
  have hrequest : Occurs "encode`" (request h m) := by
    unfold request
    iterate 3 refine Occurs.append_right ?_ _
    exact (occurs_template hencodes (fullRoute m)).append_left _
  refine mutation_occurs hv ?_
  unfold mutationConstant
  iterate 3 refine Occurs.append_right ?_ _
  exact hrequest.append_left _

theorem mutation_types {x : String}
    (hx : Occurs x (m.generics.response ++ ", " ++ m.generics.error)) :
    Occurs x (h.block m).text := by
  refine mutation_occurs hv ?_
  unfold mutationConstant
  iterate 8 refine Occurs.append_right ?_ _
  exact ((hx.append_right ", ").append_right _).append_left _

theorem mutation_id {name type : String} (hname : idName? m = some name)
    (htype : m.idType = some type) : Occurs type (h.block m).text := by
  have hfield : name ++ ": " ++ type ∈ mutationFields m := by
    rw [mutationFields, hname, htype]
    simp [nameText]
  have hstatement : interface (variablesName m) (mutationFields m) ∈ (h.block m).statements := by
    rw [block_mutation hv, mutation, if_neg (by simpa using List.ne_nil_of_mem hfield)]
    exact List.mem_append_left _ List.mem_cons_self
  refine occurs_block hstatement ?_
  exact (((Occurs.refl type).append_left _).trans
    (((Occurs.joinWith hfield ";\n  ").append_left _).append_right _))

end Mutation

theorem block_response (h : Hook) (m : Metadata) :
    Occurs m.generics.response (h.block m).text := by
  by_cases hv : m.verb = "get"
  · exact query_response hv
  · exact mutation_types hv (((Occurs.refl _).append_right ", ").append_right _)

theorem block_error (h : Hook) (m : Metadata) : Occurs m.generics.error (h.block m).text := by
  by_cases hv : m.verb = "get"
  · exact query_error hv
  · exact mutation_types hv ((Occurs.refl _).append_left _)

theorem block_encodes (hencodes : h.encodes = true) (m : Metadata) :
    Occurs "encode`" (h.block m).text := by
  by_cases hv : m.verb = "get"
  · exact query_encodes hv hencodes
  · exact mutation_encodes hv hencodes

/-- No marker is in what a hook is written from, and no name ends one. -/
structure Clear (w : String) (m : Metadata) : Prop where
  name : Stopless m.componentName
  verb : m.verb ∈ Operation.verbs
  route : ¬ Occurs w m.route
  description : ¬ Occurs w m.description
  paramsInPath : ∀ x ∈ m.paramsInPath, Stopless x
  paramsTypes : ¬ Occurs w m.paramsTypes
  response : ¬ Occurs w m.generics.response
  error : ¬ Occurs w m.generics.error
  queryParams : ∀ x ∈ m.queryParamsType, Stopless x
  pathParams : ∀ x ∈ m.pathParamsType, Stopless x
  body : ∀ x ∈ m.requestBodyType, Stopless x
  idParam : ∀ x ∈ m.idParam, Stopless x
  idType : ∀ x ∈ m.idType, ¬ Occurs w x

/-- The markers that a changing hook does not hold by itself. Of these a reading one holds the
second. -/
def foreign : List String := ["Require<", "useInvalidateQuery("]

instance : Text.Spelled foreign where
  spelling := [['R', 'e', 'q', 'u', 'i', 'r', 'e', '<'],
    ['u', 's', 'e', 'I', 'n', 'v', 'a', 'l', 'i', 'd', 'a', 't', 'e', 'Q', 'u', 'e', 'r', 'y', '(']]
  spells := rfl

theorem mem_markers_of_foreign (hw : w ∈ foreign) : w ∈ markers := by
  have hsubset : foreign ⊆ markers := by decide
  exact hsubset hw

theorem stopless_named? {name : Option String} (hname : ∀ x ∈ name, Stopless x) :
    ∀ x ∈ named? name, Stopless x := by
  unfold named?
  intro x hx
  split at hx
  · rename_i text
    split_ifs at hx
    · cases hx
    · exact hname x hx
  · cases hx

theorem stopless_nameText {name : Option String} (hname : ∀ x ∈ name, Stopless x) :
    Stopless (nameText name) := by
  cases name with
  | none =>
    rw [nameText, Option.getD_none]
    decide
  | some x => exact hname x rfl

theorem stopless_destructured {names : List String} (hnames : ∀ x ∈ names, Stopless x) :
    Stopless (destructured names) := by
  have hopen : Stopless "\x7b " := by decide
  have hcomma : Stopless ", " := by decide
  have hclose : Stopless " \x7d" := by decide
  exact (hopen.append (.joinWith hcomma hnames)).append hclose

theorem stopless_config (m : Metadata) : Stopless (config m) := by
  unfold config
  split_ifs
  · decide
  · decide

namespace Clear

variable (hm : Clear w m)
include hm

theorem idName : ∀ x ∈ idName? m, Stopless x := by
  have hid : Stopless "id" := by decide
  intro x hx
  unfold idName? at hx
  split at hx
  · cases hx
  · rename_i name hname
    have hplain := hm.idParam name hname
    split_ifs at hx
    · cases hx
    · exact Option.some.inj hx ▸ hplain
    · exact Option.some.inj hx ▸ hid

theorem variablesName : Stopless (variablesName m) := by
  have huse : Stopless "Use" := by decide
  have hsuffix : Stopless "Variables" := by decide
  exact (huse.append hm.name).append hsuffix

theorem queryArguments : ∀ x ∈ queryArguments m, Stopless x := by
  intro x hx
  simp only [Hook.queryArguments, List.mem_append] at hx
  rcases hx with (hx | hx) | hx
  · exact hm.paramsInPath x hx
  · split_ifs at hx
    · rw [List.mem_singleton.mp hx]
      decide
    · cases hx
  · rw [List.mem_singleton.mp hx]
    decide

theorem mutationArguments : ∀ x ∈ mutationArguments m, Stopless x := by
  intro x hx
  simp only [Hook.mutationArguments, List.mem_append] at hx
  rcases hx with ((hx | hx) | hx) | hx
  · exact hm.paramsInPath x hx
  · split at hx
    · rename_i name hname
      rw [List.mem_singleton.mp hx]
      exact hm.idName name hname
    · cases hx
  · split_ifs at hx
    · rw [List.mem_singleton.mp hx]
      decide
    · cases hx
  · split_ifs at hx
    · rw [List.mem_singleton.mp hx]
      decide
    · cases hx

theorem fullRoute (hw : w ∈ markers) : ¬ Occurs w (fullRoute m) := by
  unfold Hook.fullRoute
  split
  · rename_i name hname
    have hopen : Quiet w "/$\x7b" := Text.quiet_given hw (by decide)
    have hclose : Quiet w "\x7d" := Text.quiet_given hw (by decide)
    have hid := (hm.idName name hname).quiet hw
    exact Text.not_occurs_append (Text.not_occurs_append
      (Text.not_occurs_append hm.route hopen) hid) hclose
  · exact hm.route

theorem pathFields : ∀ x ∈ pathFields m, ¬ Occurs w x := by
  unfold Hook.pathFields
  split_ifs
  · exact List.forall_mem_nil _
  · exact List.forall_mem_singleton.mpr hm.paramsTypes

end Clear

section Quiet

variable (hw : w ∈ foreign)
include hw

theorem quiet_template {route : String} (hroute : ¬ Occurs w route) :
    Quiet w (h.template route) := by
  have hencode : Quiet w (if h.encodes then "encode" else "") :=
    .ite (fun _ => Stopless.quiet (mem_markers_of_foreign hw) (by decide)) fun _ => .empty w
  have hmark : Fence w "`" := Text.fence_given hw (by decide)
  exact (hencode.fenced hmark hroute).append hmark.quiet

theorem quiet_interface {name : String} {members : List String} (hname : Stopless name)
    (hmembers : ∀ x ∈ members, ¬ Occurs w x) : Quiet w (interface name members).text := by
  have hmarker := mem_markers_of_foreign hw
  have hopen : Fence w " \x7b\n  " := Text.fence_given hw (by decide)
  have hbreak : Fence w ";\n  " := Text.fence_given hw (by decide)
  have hclose : Quiet w ";\n\x7d\n\n" := Text.quiet_given hw (by decide)
  have hjoined := Text.not_occurs_joinWith (Text.marker_ne_empty hmarker) hbreak hmembers
  exact Statement.quiet hmarker (.empty w) hname ((hopen.append hjoined).append hclose)

variable (hm : Clear w m)
include hm

theorem not_occurs_queryFields : ∀ x ∈ queryFields m, ¬ Occurs w x := by
  have hmarker := mem_markers_of_foreign hw
  have hne := Text.marker_ne_empty hmarker
  have hparams : Stopless "params?: " := by decide
  have hoptions : Fence w "queryOptions?: UseQueryOptions<" := Text.fence_given hw (by decide)
  have hcomma : Fence w ", " := Text.fence_given hw (by decide)
  have hclose : Quiet w ">" := Text.quiet_given hw (by decide)
  intro x hx
  simp only [queryFields, List.mem_append] at hx
  rcases hx with (hx | hx) | hx
  · exact hm.pathFields x hx
  · split at hx
    · rename_i name hname
      rw [List.mem_singleton.mp hx]
      have hplain := stopless_named? hm.queryParams name hname
      exact ((hparams.append hplain).quiet hmarker).not_occurs hne
    · cases hx
  · rw [List.mem_singleton.mp hx]
    exact (((hoptions.append hm.response).fenced hcomma hm.error).append hclose).not_occurs hne

theorem not_occurs_mutationFields : ∀ x ∈ mutationFields m, ¬ Occurs w x := by
  have hmarker := mem_markers_of_foreign hw
  have hne := Text.marker_ne_empty hmarker
  have hcolon : Fence w ": " := Text.fence_given hw (by decide)
  have hparams : Stopless "params?: " := by decide
  have hbody : Stopless "body: " := by decide
  have htype : ¬ Occurs w (nameText m.idType) := by
    cases hfound : m.idType with
    | none => exact (Stopless.quiet hmarker (by decide)).not_occurs hne
    | some text => exact hm.idType text hfound
  intro x hx
  simp only [mutationFields, List.mem_append] at hx
  rcases hx with ((hx | hx) | hx) | hx
  · exact hm.pathFields x hx
  · split at hx
    · rename_i name hname
      rw [List.mem_singleton.mp hx]
      exact (((hm.idName name hname).quiet hmarker).fenced hcolon htype).not_occurs hne
    · cases hx
  · split at hx
    · rename_i name hname
      rw [List.mem_singleton.mp hx]
      have hplain := stopless_named? hm.queryParams name hname
      exact ((hparams.append hplain).quiet hmarker).not_occurs hne
    · cases hx
  · split at hx
    · rename_i name hname
      rw [List.mem_singleton.mp hx]
      have hplain := stopless_named? hm.body name hname
      exact ((hbody.append hplain).quiet hmarker).not_occurs hne
    · cases hx

theorem quiet_queryKey : Quiet w (queryKey h m) := by
  have hopen : Quiet w "[" := Text.quiet_given hw (by decide)
  have hclose : Quiet w ", params]" := Text.quiet_given hw (by decide)
  have htemplate : Quiet w (h.template m.route) := quiet_template hw hm.route
  exact .ite (fun _ => (hopen.append htemplate).append hclose) fun _ => htemplate

theorem quiet_queryConstant : Quiet w (queryConstant h m).after := by
  have hmarker := mem_markers_of_foreign hw
  have hopen : Quiet w " = (" := Text.quiet_given hw (by decide)
  have huse : Quiet w ": Use" := Text.quiet_given hw (by decide)
  have hprops : Quiet w "Props) =>\n" := Text.quiet_given hw (by decide)
  have hcall : Fence w "  useQuery<" := Text.fence_given hw (by decide)
  have hcomma : Fence w ", " := Text.fence_given hw (by decide)
  have hparen : Quiet w ">(\n" := Text.quiet_given hw (by decide)
  have hindent : Quiet w "    " := Text.quiet_given hw (by decide)
  have hline : Quiet w ",\n" := Text.quiet_given hw (by decide)
  have hrequest : Fence w "    () => axios.get<" := Text.fence_given hw (by decide)
  have haddress : Quiet w ">(" := Text.quiet_given hw (by decide)
  have hthen : Quiet w ").then((res) => res.data),\n" := Text.quiet_given hw (by decide)
  have hoptions : Quiet w "    \x7b refetchOnMount: false, ...queryOptions \x7d\n" :=
    Text.quiet_given hw (by decide)
  have hclose : Quiet w "  );\n\n" := Text.quiet_given hw (by decide)
  have hhead := (((hopen.append ((stopless_destructured hm.queryArguments).quiet hmarker)).append
    huse).append (hm.name.quiet hmarker)).append hprops
  have htypes := ((hhead.fenced hcall hm.response).fenced hcomma hm.error).append hparen
  have hkey : Quiet w (queryKey h m) := quiet_queryKey hw hm
  have hread := (((htypes.append hindent).append hkey).append hline).fenced hrequest hm.response
  exact (((((hread.append haddress).append (quiet_template hw hm.route)).append
    ((stopless_config m).quiet hmarker)).append hthen).append hoptions).append hclose

theorem quiet_invalidateConstant (hrequire : w = "Require<") :
    Quiet w (invalidateConstant h m).after := by
  have hmarker := mem_markers_of_foreign hw
  have hopen : Quiet w " = (" := Text.quiet_given hw (by decide)
  have harrow : Quiet w ") =>\n" := Text.quiet_given hw (by decide)
  have hcall : Quiet w "  useInvalidateQuery(" := by
    rw [hrequire]
    exact Text.quiet_of_isQuiet (by decide)
  have hname : Quiet w ", \"invalidate" := Text.quiet_given hw (by decide)
  have hclose : Quiet w "\");\n\n" := Text.quiet_given hw (by decide)
  have harguments : Stopless (invalidateArguments m) := by
    unfold invalidateArguments
    split_ifs
    · decide
    · have hcolon : Stopless ": " := by decide
      exact ((stopless_destructured hm.paramsInPath).append hcolon).append
        (stopless_nameText hm.pathParams)
  exact (((((hopen.append (harguments.quiet hmarker)).append harrow).append hcall).append
    (quiet_template hw hm.route)).append hname |>.append (hm.name.quiet hmarker)).append hclose

theorem quiet_request : Quiet w (request h m) := by
  have hmarker := mem_markers_of_foreign hw
  have hverbs : ∀ verb ∈ Operation.verbs, ∀ w ∈ foreign,
      Text.isFence w.toList ("axios." ++ verb ++ "<").toList = true := by
    decide
  have hcall : Fence w ("axios." ++ m.verb ++ "<") :=
    Text.fence_of_isFence (hverbs _ hm.verb w hw)
  have haddress : Quiet w ">(" := Text.quiet_given hw (by decide)
  have hbody : Stopless (if m.verb ∈ bodyVerbs then
      ", " ++ (if (body? m).isSome then "body" else "undefined") else "") := by
    split_ifs
    · decide
    · decide
    · decide
  have hclose : Quiet w ")" := Text.quiet_given hw (by decide)
  exact (((((hcall.append hm.response).append haddress).append
    (quiet_template hw (hm.fullRoute hmarker))).append (hbody.quiet hmarker)).append
    ((stopless_config m).quiet hmarker)).append hclose

theorem not_occurs_mutationTypes {last : String} (hlast : Stopless last) :
    ¬ Occurs w (m.generics.response ++ ", " ++ m.generics.error ++ ", " ++ last) := by
  have hmarker := mem_markers_of_foreign hw
  have hcomma : Fence w ", " := Text.fence_given hw (by decide)
  have hplain := (hlast.quiet hmarker).not_occurs (Text.marker_ne_empty hmarker)
  exact hcomma.not_occurs (hcomma.not_occurs hm.response hm.error) hplain

theorem not_occurs_arguments (isBare : Bool) :
    ¬ Occurs w (if isBare then "()" else "(" ++ destructured (mutationArguments m) ++ ")") := by
  have hmarker := mem_markers_of_foreign hw
  have hne := Text.marker_ne_empty hmarker
  have hstop : '(' ∈ stops := by decide
  have hclose : Quiet w ")" := Text.quiet_given hw (by decide)
  have hnames := (stopless_destructured hm.mutationArguments).quiet hmarker
  cases isBare with
  | true =>
    have hbare : ∀ w ∈ foreign, ¬ Occurs w "()" := by decide
    exact hbare w hw
  | false =>
    exact Text.not_occurs_append
      (Text.not_occurs_after hmarker hstop rfl (hnames.not_occurs hne)) hclose

theorem quiet_mutationConstant : Quiet w (mutationConstant h m).after := by
  have hmarker := mem_markers_of_foreign hw
  have hlast : Stopless (if (mutationFields m).isEmpty then "void" else variablesName m) := by
    split_ifs
    · decide
    · exact hm.variablesName
  have htypes := not_occurs_mutationTypes hw hm hlast
  have hopen : Quiet w " = (\n" := Text.quiet_given hw (by decide)
  have hoptions : Fence w "  mutationOptions?: UseMutationOptions<" :=
    Text.fence_given hw (by decide)
  have hend : Quiet w ">\n" := Text.quiet_given hw (by decide)
  have harrow : Quiet w ") =>\n" := Text.quiet_given hw (by decide)
  have hcall : Fence w "  useMutation<" := Text.fence_given hw (by decide)
  have hparen : Quiet w ">(\n" := Text.quiet_given hw (by decide)
  have hindent : Fence w "    " := Text.fence_given hw (by decide)
  have hto : Quiet w " => " := Text.quiet_given hw (by decide)
  have hrequest : Quiet w (request h m) := quiet_request hw hm
  have hthen : Quiet w ".then((res) => res.data),\n" := Text.quiet_given hw (by decide)
  have hmutation : Quiet w "    mutationOptions\n" := Text.quiet_given hw (by decide)
  have hclose : Quiet w "  );\n\n" := Text.quiet_given hw (by decide)
  have hhead := ((hopen.fenced hoptions htypes).append hend).append harrow
  have hbody := ((hhead.fenced hcall htypes).append hparen).fenced hindent
    (not_occurs_arguments hw hm (mutationFields m).isEmpty)
  exact (((((hbody.append hto).append hrequest).append hthen).append hmutation).append hclose)

theorem quiet_query (hrequire : w = "Require<") : ∀ d ∈ h.query m, Quiet w d.text := by
  have hmarker := mem_markers_of_foreign hw
  have hprops : Stopless ("Use" ++ m.componentName ++ "Props") := by
    have huse : Stopless "Use" := by decide
    have hsuffix : Stopless "Props" := by decide
    exact (huse.append hm.name).append hsuffix
  have hhook : Stopless ("use" ++ m.componentName) :=
    .append (by decide) hm.name
  have hinvalidate : Stopless ("useInvalidate" ++ m.componentName) :=
    .append (by decide) hm.name
  rw [query]
  simp only [List.forall_mem_cons]
  refine ⟨quiet_interface hw hprops (not_occurs_queryFields hw hm), ?_, ?_, List.forall_mem_nil _⟩
  · exact Statement.quiet hmarker (.empty w) hhook (quiet_queryConstant hw hm)
  · exact Statement.quiet hmarker (.empty w) hinvalidate (quiet_invalidateConstant hw hm hrequire)

theorem quiet_mutation : ∀ d ∈ h.mutation m, Quiet w d.text := by
  have hmarker := mem_markers_of_foreign hw
  have hhook : Stopless ("use" ++ m.componentName) :=
    .append (by decide) hm.name
  intro d hd
  rw [mutation, List.mem_append] at hd
  rcases hd with hd | hd
  · split_ifs at hd
    · cases hd
    · rw [List.mem_singleton.mp hd]
      exact quiet_interface hw hm.variablesName (not_occurs_mutationFields hw hm)
  · rw [List.mem_singleton.mp hd]
    exact Statement.quiet hmarker (.empty w) hhook (quiet_mutationConstant hw hm)

/-- A hook brings no marker in but those of the helpers that it calls. -/
theorem block_quiet (hget : m.verb = "get" → w = "Require<") : Quiet w (h.block m).text := by
  have hmarker := mem_markers_of_foreign hw
  have hbreak : Quiet w "\n" := Text.quiet_given hw (by decide)
  have hopen := (Naming.quiet_docComment hmarker hm.description 0).append hbreak
  have hstatements : ∀ d ∈ (h.block m).statements, Quiet w d.text := by
    by_cases hv : m.verb = "get"
    · rw [block_query hv]
      exact quiet_query hw hm (hget hv)
    · rw [block_mutation hv]
      exact quiet_mutation hw hm
  exact (hopen.append (.joinWith (.empty w) (List.forall_mem_map.mpr hstatements))).append
    (.empty w)

end Quiet

end ApiBindings.Hook
