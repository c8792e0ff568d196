import ApiBindings.Proofs.Hook.Markers
import ApiBindings.Proofs.Operation.Unmarked

/-!
The expressions that the code of an operation shows. Main statements: the text of each stands in the
code, and no marker is there but those that they and the hook bring in.
-/

namespace ApiBindings.Operation

open Text (markers Occurs Quiet Fence Stopless)
open Declaration (Statement Block)

variable {m : String}

/-- The expressions that stand in the code of an operation: the answer in its declaration or in the
hook, the error in the hook alone. -/
def Plan.shown (bindings : Bool) (p : Plan) : List TypeExpr :=
  (if bindings || p.namesResponse then [p.types.response] else [])
    ++ (if bindings then [p.types.error] else [])
    ++ (if p.namesBody then [p.types.body] else [])
    ++ p.types.pathMembers.map Member.type ++ p.types.queryMembers.map Member.type
    ++ p.types.id.toList

theorem Plan.Clear.shown {p : Plan} {t : TypeExpr} {bindings : Bool} (h : p.Clear m)
    (ht : t ∈ p.shown bindings) : t.Clear m := by
  have hif {q : Bool} {u : TypeExpr} (hu : u.Clear m) (ht : t ∈ if q then [u] else []) :
      t.Clear m := by
    split_ifs at ht
    · exact List.mem_singleton.mp ht ▸ hu
    · cases ht
  simp only [Plan.shown, List.mem_append, List.mem_map, Option.mem_toList] at ht
  rcases ht with ((((ht | ht) | ht) | ⟨x, hx, rfl⟩) | ⟨x, hx, rfl⟩) | ht
  · exact hif h.response ht
  · exact hif h.error ht
  · exact hif h.body ht
  · exact (h.pathMembers x hx).type
  · exact (h.queryMembers x hx).type
  · exact h.id t ht

section Quiet

variable {p : Plan} (hm : m ∈ markers)
include hm

theorem Member.Clear.quiet {x : Member} (h : x.Clear m) (ht : ¬ Occurs m x.type.render) :
    Quiet m x.text := by
  have hoptional : Quiet m (if x.required then "" else "?") :=
    .ite (fun _ => .empty m) fun _ => Text.quiet_given hm (by decide)
  have hcolon : Fence m ": " := Text.fence_given hm (by decide)
  exact ((h.comment.append h.key).append hoptional).fenced hcolon ht

theorem quiet_membersInterface {name : String} {members : List Member} (hname : Stopless name)
    (h : ∀ x ∈ members, Quiet m x.text) : Quiet m (Plan.membersInterface name members).text := by
  have hopen : Quiet m " \x7b\n  " := Text.quiet_given hm (by decide)
  have hbreak : Quiet m ";\n  " := Text.quiet_given hm (by decide)
  have hclose : Quiet m ";\n\x7d" := Text.quiet_given hm (by decide)
  exact Statement.quiet hm (.empty m) hname
    ((hopen.append (.joinWith hbreak (List.forall_mem_map.mpr h))).append hclose)

theorem Plan.Clear.members_quiet {bindings : Bool} (h : p.Clear m)
    (htypes : ∀ t ∈ p.shown bindings, ¬ Occurs m t.render) :
    (∀ x ∈ p.types.pathMembers, Quiet m x.text) ∧ ∀ x ∈ p.types.queryMembers, Quiet m x.text := by
  constructor
  · intro x hx
    refine (h.pathMembers x hx).quiet hm (htypes _ ?_)
    simp only [Plan.shown, List.mem_append]
    exact .inl (.inl (.inr (List.mem_map_of_mem hx)))
  · intro x hx
    refine (h.queryMembers x hx).quiet hm (htypes _ ?_)
    simp only [Plan.shown, List.mem_append]
    exact .inl (.inr (List.mem_map_of_mem hx))

theorem Plan.Clear.block_quiet {bindings : Bool} (h : p.Clear m)
    (htypes : ∀ t ∈ p.shown bindings, ¬ Occurs m t.render) : Quiet m p.block.text := by
  have hbreak : Quiet m "\n" := Text.quiet_given hm (by decide)
  obtain ⟨hpath, hquery⟩ := h.members_quiet hm htypes
  have hnamed {suffix : String} (hsuffix : Stopless suffix) : Stopless (p.name ++ suffix) :=
    h.name.append hsuffix
  have hstatements : ∀ d ∈ p.statements, Quiet m d.text := by
    intro d hd
    simp only [Plan.statements, List.mem_append] at hd
    -- the answer, the query, the path and the body
    rcases hd with ((hd | hd) | hd) | hd
    · split_ifs at hd with hresponse
      · rw [List.mem_singleton.mp hd]
        have ht : ¬ Occurs m p.types.response.render := htypes _ (by simp [Plan.shown, hresponse])
        refine Statement.quiet hm (Declaration.declareAs_quiet_before hm (.empty m)) ?_
          ((Declaration.declareAs_writes _ _ _).quiet hm ht)
        rw [Declaration.declareAs_name]
        exact hnamed (by decide)
      · cases hd
    · split_ifs at hd
      · rw [List.mem_singleton.mp hd]
        exact quiet_membersInterface hm (hnamed (by decide)) hquery
      · cases hd
    · split_ifs at hd
      · rw [List.mem_singleton.mp hd]
        exact quiet_membersInterface hm (hnamed (by decide)) hpath
      · cases hd
    · split_ifs at hd with hbody
      · rw [List.mem_singleton.mp hd]
        have ht : ¬ Occurs m p.types.body.render := htypes _ (by simp [Plan.shown, hbody])
        have hwrites : (Declaration.typeAlias "" p.bodyName p.types.body).Writes p.types.body :=
          .inr rfl
        exact Statement.quiet hm (.empty m) (hnamed (by decide)) (hwrites.quiet hm ht)
      · cases hd
  have htexts : ∀ x ∈ (p.statements.map Statement.onLines).map Statement.text, Quiet m x := by
    simp only [List.forall_mem_map]
    exact fun d hd => Statement.quiet_onLines hm (hstatements d hd)
  exact ((Quiet.empty m).append (.joinWith (.empty m) htexts)).append hbreak

theorem Plan.Clear.metadata (h : p.Clear m) (hverb : p.verb ∈ verbs)
    (htypes : ∀ t ∈ p.shown true, ¬ Occurs m t.render) (operation : Entries) :
    Hook.Clear m (p.metadata operation) := by
  have hne := Text.marker_ne_empty hm
  have hbreak : Quiet m ";\n  " := Text.quiet_given hm (by decide)
  have hnamed {suffix : String} (hsuffix : Stopless suffix) : Stopless (p.name ++ suffix) :=
    h.name.append hsuffix
  have hoptional {named : Bool} {name : String} (hname : Stopless name) :
      ∀ x ∈ (if named then some name else none), Stopless x := by
    intro x hx
    split_ifs at hx
    · exact Option.some.inj hx ▸ hname
    · cases hx
  have hresponse : ¬ Occurs m p.responseType := by
    unfold Plan.responseType
    split_ifs
    · have hsuffix : Stopless "Response" := by decide
      exact ((hnamed hsuffix).quiet hm).not_occurs hne
    · exact htypes _ (by simp [Plan.shown])
  exact {
    name := h.name
    verb := hverb
    route := h.route
    description := h.description
    paramsInPath := h.pathParameters
    paramsTypes := (Quiet.joinWith hbreak
      (List.forall_mem_map.mpr (h.members_quiet hm htypes).1)).not_occurs hne
    response := hresponse
    error := htypes _ (by simp [Plan.shown])
    queryParams := hoptional (hnamed (by decide))
    pathParams := hoptional (hnamed (by decide))
    body := hoptional (hnamed (by decide))
    idParam := h.idParam
    idType := by
      intro x hx
      obtain ⟨t, ht, rfl⟩ := Option.map_eq_some_iff.mp hx
      exact htypes t (by simp [Plan.shown, ht]) }

end Quiet

section Shown

variable {p : Plan}

theorem Plan.occurs_block {d : Statement} {x : String} (hd : d ∈ p.statements)
    (hx : Occurs x d.text) : Occurs x p.block.text := by
  have hlines : d.onLines ∈ p.block.statements := List.mem_map_of_mem hd
  have hline : d.onLines.text = "\n" ++ d.text ++ "\n" := d.text_onLines
  refine Occurs.trans ?_ (Block.occurs_statement hlines)
  rw [hline]
  exact (hx.append_left "\n").append_right "\n"

theorem occurs_membersInterface {name : String} {members : List Member} {x : Member}
    (hx : x ∈ members) : Occurs x.type.render (Plan.membersInterface name members).text := by
  have htype : Occurs x.type.render x.text := (Occurs.refl _).append_left _
  have hmember : Occurs x.text (Plan.membersInterface name members).after :=
    ((Occurs.joinWith (List.mem_map_of_mem hx) ";\n  ").append_left _).append_right _
  exact htype.trans (hmember.append_left _)

theorem idParam_of_cut {route verb name : String} {options : Options}
    (h : (Route.of route verb options).idParam = some name) :
    options.bindings = true ∧ verb = "delete" ∧ name ≠ "" := by
  rcases Route.of_cases route verb options with
    hroute | ⟨before, cut, hbindings, hdelete, hcut, hroute⟩
  · rw [hroute] at h
    cases h
  · rw [hroute] at h
    cases h
    exact ⟨hbindings, hdelete, (Naming.cutLast?_ok hcut).2.1⟩

theorem exists_idName {m : Metadata} {name : String} (h : m.idParam = some name)
    (hne : name ≠ "") : ∃ x, Hook.idName? m = some x := by
  unfold Hook.idName?
  rw [h]
  dsimp only
  rw [if_neg hne]
  split_ifs
  · exact ⟨_, rfl⟩
  · exact ⟨_, rfl⟩

variable {components : Value} {options : Options} {c : Call} {b : Bound} {t : TypeExpr}

/-- What is bound for a call with a plan, if no generator of the user writes more. -/
structure Bound.Writes (options : Options) (c : Call) (p : Plan) (b : Bound) : Prop where
  metadata : b.metadata = p.metadata c.operation
  declared : b.declared = p.block
  hooks : b.hooks =
    if options.bindings then (Hook.ofMode options.encodingMode).block b.metadata else .empty

theorem Bound.Writes.occurs_hook (h : b.Writes options c p) (hbindings : options.bindings = true)
    {x : String} (hx : Occurs x ((Hook.ofMode options.encodingMode).block b.metadata).text) :
    Occurs x b.text := by
  have hhooks : Occurs x b.hooks.text := by
    rw [h.hooks, if_pos hbindings]
    exact hx
  exact hhooks.append_left _

theorem Bound.Writes.occurs_declared (h : b.Writes options c p) {x : String}
    (hx : Occurs x p.block.text) : Occurs x b.text := by
  have hdeclared : Occurs x b.declared.text := by
    rw [h.declared]
    exact hx
  exact hdeclared.append_right _

theorem Bound.Writes.occurs (h : b.Writes options c p) (hplan : c.HasPlan components options p)
    (ht : t ∈ p.shown options.bindings) : Occurs t.render b.text := by
  obtain ⟨id, s, u, -, hplan⟩ := hplan
  obtain ⟨text, parameters, v, hmade⟩ := plan_returns hplan
  -- answer, error, body, members of the path, members of the query, type of the id
  simp only [Plan.shown, List.mem_append, List.mem_map, Option.mem_toList] at ht
  rcases ht with ((((ht | ht) | ht) | ⟨x, hx, rfl⟩) | ⟨x, hx, rfl⟩) | ht
  · split_ifs at ht with hshown
    · obtain rfl := List.mem_singleton.mp ht
      by_cases hnamed : p.namesResponse = true
      · have hd : Declaration.declareAs "" p.responseName p.types.response ∈ p.statements := by
          simp [Plan.statements, hnamed]
        exact h.occurs_declared (p.occurs_block hd (Declaration.declareAs_writes _ _ _).occurs)
      · have hbindings : options.bindings = true := by simpa [hnamed] using hshown
        have hresponse : b.metadata.generics.response = p.types.response.render := by
          rw [h.metadata]
          exact if_neg hnamed
        exact h.occurs_hook hbindings (hresponse ▸ Hook.block_response _ _)
    · cases ht
  · split_ifs at ht with hbindings
    · obtain rfl := List.mem_singleton.mp ht
      have herror : b.metadata.generics.error = p.types.error.render := by rw [h.metadata]; rfl
      exact h.occurs_hook hbindings (herror ▸ Hook.block_error _ _)
    · cases ht
  · split_ifs at ht with hbody
    · obtain rfl := List.mem_singleton.mp ht
      have hd : Declaration.typeAlias "" p.bodyName p.types.body ∈ p.statements := by
        simp [Plan.statements, hbody]
      have hwrites : (Declaration.typeAlias "" p.bodyName p.types.body).Writes p.types.body :=
        .inr rfl
      exact h.occurs_declared (p.occurs_block hd hwrites.occurs)
    · cases ht
  · have hpath : p.namesPath = true := by
      have hlength := length_of_returns_mapM hmade.types.pathMembers
      have hpositive := List.length_pos_of_mem hx
      rw [hlength] at hpositive
      simpa [Plan.namesPath, List.length_pos_iff] using hpositive
    have hd : Plan.membersInterface p.pathName p.types.pathMembers ∈ p.statements := by
      simp [Plan.statements, hpath]
    exact h.occurs_declared (p.occurs_block hd (occurs_membersInterface hx))
  · have hquery : p.namesQuery = true := by
      simpa [Plan.namesQuery] using List.ne_nil_of_mem hx
    have hd : Plan.membersInterface p.queryName p.types.queryMembers ∈ p.statements := by
      simp [Plan.statements, hquery]
    exact h.occurs_declared (p.occurs_block hd (occurs_membersInterface hx))
  · obtain ⟨name, hname, -⟩ := hmade.types.id t ht
    obtain ⟨hbindings, hdelete, hne⟩ := idParam_of_cut (hmade.route ▸ hname)
    have hv : b.metadata.verb ≠ "get" := by
      have hplanVerb : b.metadata.verb = p.verb := by rw [h.metadata]; rfl
      rw [hplanVerb, hmade.verb, hdelete]
      decide
    have hparam : b.metadata.idParam = some name := by rw [h.metadata]; exact hname
    have htype : b.metadata.idType = some t.render := by
      rw [h.metadata]
      exact congrArg (Option.map TypeExpr.render) ht
    obtain ⟨x, hx⟩ := exists_idName hparam hne
    exact h.occurs_hook hbindings (Hook.mutation_id hv hx htype)

theorem Call.HasPlan.unique {q : Plan} (hp : c.HasPlan components options p)
    (hq : c.HasPlan components options q) : p = q := by
  obtain ⟨id, s, u, hid, hp⟩ := hp
  obtain ⟨id', s', u', hid', hq⟩ := hq
  cases hid.symm.trans hid'
  exact (steady_plan c components options id).eq_of_returns hp hq

theorem Call.HasPlan.verb (h : c.HasPlan components options p) : p.verb = c.verb := by
  obtain ⟨id, s, u, -, hplan⟩ := h
  obtain ⟨text, parameters, v, hmade⟩ := plan_returns hplan
  exact hmade.verb

theorem bind_writes {s u : Session} (hgenerator : options.customGenerator = none)
    (h : Returns (bind components options c) s b u) :
    ∃ p, c.HasPlan components options p ∧ b.Writes options c p := by
  obtain ⟨id, p, log, v, hbound⟩ := bind_steps h
  refine ⟨p, ⟨id, s.log, log, hbound.called, hbound.planned⟩, hbound.metadata, hbound.declared, ?_⟩
  have hhooks := hbound.hooks
  rw [bindingsOf, hgenerator] at hhooks
  exact (Except.ok.inj hhooks).symm

/-- The code of an operation holds no marker but those of the helpers that its hook calls, unless a
type brings one in. -/
theorem Bound.Writes.quiet (hm : m ∈ markers) (h : b.Writes options c p) (hclear : p.Clear m)
    (hverb : p.verb ∈ verbs) (htypes : ∀ t ∈ p.shown options.bindings, ¬ Occurs m t.render)
    (hhooks : options.bindings = true → m ∈ Hook.foreign ∧ (p.verb = "get" → m = "Require<")) :
    Quiet m b.text := by
  have hdeclared : Quiet m b.declared.text := by
    rw [h.declared]
    exact hclear.block_quiet hm htypes
  refine hdeclared.append ?_
  rw [Bound.bindings, h.hooks]
  split_ifs with hbindings
  · obtain ⟨hforeign, hget⟩ := hhooks hbindings
    rw [hbindings] at htypes
    rw [h.metadata]
    exact Hook.block_quiet hforeign (hclear.metadata hm hverb htypes c.operation) hget
  · exact .empty m

end Shown

end ApiBindings.Operation
