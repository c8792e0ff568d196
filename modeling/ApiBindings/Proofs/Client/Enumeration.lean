import ApiBindings.Proofs.Client.Calls
import ApiBindings.Proofs.Declaration.Declared
import Mathlib.Data.List.Pairwise

/-!
What a run returns for every operation of a document. Main statement: there is one entry and one
block for each, in the order of the document, and no two have the same id.
-/

namespace ApiBindings

namespace Operation

variable {components : Value} {options : Options} {c : Call} {s t : Session} {b : Bound}

theorem pascalCaseOf_ok {v : Value} {name : String} (h : Naming.pascalCaseOf v = .ok name)
    (hv : v.isFilled = true) : ∃ text, v = .str text := by
  unfold Naming.pascalCaseOf at h
  rw [if_pos hv] at h
  split at h
  · exact ⟨_, rfl⟩
  · cases h

theorem Call.id_ok {id : Scalar} (h : c.id = .ok id) :
    c.operation.get "operationId" = .scalar id ∧ id.isFilled = true := by
  unfold Call.id at h
  dsimp only at h
  split_ifs at h with hfilled
  unfold Value.expectKey at h
  split at h
  · rename_i id' hid
    cases h
    rw [hid] at hfilled ⊢
    exact ⟨rfl, hfilled⟩
  · cases h

/-- What is bound for a call: its entry names the verb and the id of the operation, and its block
holds the declarations of one plan and the hooks that follow from the entry. -/
structure Bound.IsOf (options : Options) (c : Call) (b : Bound) : Prop where
  verb : b.metadata.verb = c.verb
  id : c.Presents b.metadata.operationId
  route : ∃ text, c.route = .str text ∧
    b.metadata.route = (Route.of text c.verb options).template
  block : ∃ plan : Plan, b.metadata = plan.metadata c.operation ∧ b.declared = plan.block
  hooks : bindingsOf b.metadata options = .ok b.hooks

theorem bind_isOf (h : Returns (bind components options c) s b t) :
    b.IsOf options c ∧ Scalar.str b.metadata.operationId ∉ s.operationIds ∧
      t.operationIds = s.operationIds ++ [.str b.metadata.operationId] := by
  obtain ⟨id, p, log, u, hbound⟩ := bind_steps h
  obtain ⟨event, rfl, -⟩ := hbound.told
  obtain ⟨text, parameters, v, hmade⟩ := plan_returns hbound.planned
  obtain ⟨hget, hfilled⟩ := Call.id_ok hbound.called
  obtain ⟨name, hpascal, -⟩ := bind_eq_ok.mp hmade.name
  obtain ⟨idText, hidText⟩ := pascalCaseOf_ok hpascal hfilled
  cases hidText
  have hoperationId : b.metadata.operationId = idText := by
    rw [hbound.metadata]
    exact hmade.idText
  rw [hoperationId]
  refine ⟨⟨?_, ⟨?_, ?_⟩, ⟨text, hmade.routeText, ?_⟩, ⟨p, hbound.metadata, hbound.declared⟩,
    hbound.hooks⟩, ?_, ?_⟩
  · rw [hbound.metadata]
    exact hmade.verb
  · rw [hget, hoperationId]
  · rw [hoperationId]
    rintro rfl
    cases hfilled
  · rw [hbound.metadata, ← hmade.route]
    rfl
  · intro hmem
    have hfresh := hbound.fresh
    rw [any_isKey_str.mpr hmem] at hfresh
    cases hfresh
  · exact (registrations_grow hbound.named).1

theorem binds_apart {cs : List Call} {bs : List Bound}
    (h : Returns (cs.mapM (bind components options)) s bs t) :
    (bs.map (·.metadata.operationId)).Nodup ∧
      ∀ b ∈ bs, Scalar.str b.metadata.operationId ∉ s.operationIds := by
  induction cs generalizing s bs with
  | nil =>
    obtain ⟨rfl, -⟩ := returns_mapM_nil.mp h
    exact ⟨.nil, fun b hb => nomatch hb⟩
  | cons c cs ih =>
    obtain ⟨b, u, bs, hb, hbs, rfl⟩ := returns_mapM_cons.mp h
    obtain ⟨-, hnew, hids⟩ := bind_isOf hb
    -- `u` remembers the id of the first call, so that none of the later ones can have it
    obtain ⟨hnodup, hlater⟩ := ih hbs
    rw [hids] at hlater
    refine ⟨List.nodup_cons.mpr ⟨fun hmem => ?_, hnodup⟩, fun d hd => ?_⟩
    · obtain ⟨d, hd, he⟩ := List.mem_map.mp hmem
      refine hlater d hd (List.mem_append_right _ ?_)
      rw [List.mem_singleton, he]
    · rcases List.mem_cons.mp hd with rfl | hd
      · exact hnew
      · exact fun hmem => hlater d hd (List.mem_append_left _ hmem)

end Operation

namespace Client

open Operation (Call Options Bound)
open Declaration (Block declareSchemas declareBodies requestBodies responses)

variable {document : Value} {options : Options} {output : Output}

theorem isOperation_iff {e : Scalar × Value} :
    isOperation e = true ↔ ∃ verb ∈ Operation.verbs, e.1 = .str verb := by
  simp only [isOperation, List.any_eq_true, Scalar.equals_str]

theorem mem_calls_iff {c : Call} : c ∈ calls document ↔
    ∃ path operation, (c.route, path) ∈ paths document ∧ (.str c.verb, operation) ∈ path.members ∧
      c.verb ∈ Operation.verbs ∧ c.operation = operation.members ∧
      c.routeParameters = path.members.get "parameters" := by
  simp only [calls, pathCalls, List.mem_flatMap, List.mem_map, List.mem_filter, isOperation_iff]
  constructor
  · rintro ⟨⟨route, path⟩, hpath, ⟨key, operation⟩, ⟨hoperation, verb, hverb, rfl⟩, rfl⟩
    exact ⟨path, operation, hpath, hoperation, hverb, rfl, rfl⟩
  · rintro ⟨path, operation, hpath, hoperation, hverb, hc, hparameters⟩
    refine ⟨(c.route, path), hpath, (.str c.verb, operation), ⟨hoperation, c.verb, hverb, rfl⟩, ?_⟩
    rw [← hc, ← hparameters]
    rfl

theorem calls_apart (hroutes : ((paths document).map (·.1)).Nodup)
    (hverbs : ∀ e ∈ paths document, (e.2.members.map (·.1)).Nodup) :
    (calls document).Pairwise fun c d => ¬ (c.route = d.route ∧ c.verb = d.verb) := by
  rw [calls, List.pairwise_flatMap]
  constructor
  · intro e he
    rw [pathCalls, List.pairwise_map]
    refine (List.pairwise_map.mp (hverbs e he)).filter _ |>.imp_of_mem fun hx hy hne hsame => ?_
    obtain ⟨verb, -, hx⟩ := isOperation_iff.mp (List.mem_filter.mp hx).2
    obtain ⟨verb', -, hy⟩ := isOperation_iff.mp (List.mem_filter.mp hy).2
    rw [hx, hy] at hne hsame
    exact hne (congrArg Scalar.str hsame.2)
  · refine (List.pairwise_map.mp hroutes).imp fun hne c hc d hd hsame => ?_
    obtain ⟨_, -, rfl⟩ := List.mem_map.mp hc
    obtain ⟨_, -, rfl⟩ := List.mem_map.mp hd
    exact hne hsame.1

/-- The output holds one entry and one block for each operation of the document, and the blocks of
the components before them. -/
structure Enumerates (document : Value) (options : Options) (output : Output) : Prop where
  bound : List.Forall₂ (Bound.IsOf options) (calls document) output.bound
  operations : output.operations = output.bound.map (·.metadata)
  filled : "" ∉ output.operations.map (·.operationId)
  distinct : (output.operations.map (·.operationId)).Nodup
  pairs : ((paths document).map (·.1)).Nodup →
    (∀ e ∈ paths document, (e.2.members.map (·.1)).Nodup) →
    (calls document).Pairwise fun c d => ¬ (c.route = d.route ∧ c.verb = d.verb)
  blocks : ∃ components schemas bodies answers s t u v,
    Returns (narrowedComponents document.members) .start components s ∧
    Returns (declareSchemas (components.get "schemas")) s schemas t ∧
    Returns (declareBodies requestBodies (components.get "requestBodies")) t bodies u ∧
    Returns (declareBodies responses (components.get "responses")) u answers v ∧
    output.blocks = [schemas.text, bodies.text, answers.text].filter (· != "") ++
      output.bound.map Bound.text

theorem Stages.enumerates {shared : Entries} {s t u v : Session}
    (h : Stages document options shared output s t u v) : Enumerates document options output := by
  have hbound : List.Forall₂ (Bound.IsOf options) (calls document) output.bound :=
    (forall₂_of_returns_mapM h.bound).imp fun c b ⟨_, _, hb⟩ => (Operation.bind_isOf hb).1
  have hids : output.operations.map (·.operationId) =
      output.bound.map (·.metadata.operationId) := List.map_map
  refine ⟨hbound, rfl, fun hmem => ?_, ?_, calls_apart, ?_⟩
  · obtain ⟨b, hb, hempty⟩ := List.mem_map.mp (hids ▸ hmem)
    obtain ⟨c, -, hc⟩ := exists_left_of_forall₂ hbound hb
    exact hc.id.2 hempty
  · rw [hids]
    exact (Operation.binds_apart h.bound).1
  · obtain ⟨schemas, bodies, answers, w, x, hcomponents, hschemas, hbodies, hanswers⟩ :=
      Declaration.componentBlocks_returns h.declared
    refine ⟨shared, schemas, bodies, answers, s, w, x, t, h.narrowed, hschemas, hbodies, hanswers,
      ?_⟩
    rw [Output.blocks, codeBlocks, hcomponents]
    rfl

theorem Enumerates.identified (h : Enumerates document options output) :
    (∀ c ∈ calls document, ∃ id, c.Presents id) ∧
      (calls document).Pairwise fun c d => ∀ id, ¬ (c.Presents id ∧ d.Presents id) := by
  refine ⟨fun c hc => ?_, ?_⟩
  · obtain ⟨b, -, hb⟩ := exists_right_of_forall₂ h.bound hc
    exact ⟨_, hb.id⟩
  · have hdistinct : output.bound.Pairwise fun b d =>
        b.metadata.operationId ≠ d.metadata.operationId :=
      List.pairwise_map.mp (List.map_map ▸ h.distinct)
    refine pairwise_of_forall₂ h.bound (fun c d b e hcb hde hne id hid => hne ?_) hdistinct
    rw [hcb.id.unique hid.1, hde.id.unique hid.2]

/-- A run that returns has one entry and one block for each operation of the document. So it does
not return if an operation has no id, or if two have the same. -/
theorem generate_enumerates (document : Value) (options : Options) :
    (∀ output log, generate document options = (.ok output, log) →
      Enumerates document options output) ∧
    ((∃ c ∈ calls document, ∀ id, ¬ c.Presents id) ∨
      ¬ (calls document).Pairwise (fun c d => ∀ id, ¬ (c.Presents id ∧ d.Presents id)) →
      ∀ output log, generate document options ≠ (.ok output, log)) := by
  have hreturns : ∀ output log, generate document options = (.ok output, log) →
      Enumerates document options output := by
    intro output log h
    obtain ⟨shared, s, t, u, v, -, hstages⟩ := generate_stages h
    exact hstages.enumerates
  refine ⟨hreturns, fun hids output log h => ?_⟩
  obtain ⟨hpresent, hapart⟩ := (hreturns output log h).identified
  rcases hids with ⟨c, hc, hnone⟩ | hshared
  · obtain ⟨id, hid⟩ := hpresent c hc
    exact hnone id hid
  · exact hshared hapart

def twoRoutes (first second : String) : Value :=
  .ofEntries [(.str "paths", .ofEntries [
    (.str "/pets", .ofEntries [(.str "get", .ofEntries [(.str "operationId", .str first)])]),
    (.str "/cats", .ofEntries [(.str "post", .ofEntries [(.str "operationId", .str second)])])])]

theorem generate_enumerates_twoRoutes :
    (∃ output log, generate (twoRoutes "listPets" "addCat") .default = (.ok output, log) ∧
      Enumerates (twoRoutes "listPets" "addCat") .default output) ∧
    ∀ output log, generate (twoRoutes "addCat" "addCat") .default ≠ (.ok output, log) := by
  constructor
  · obtain ⟨output, log, hrun⟩ : ∃ output log,
        generate (twoRoutes "listPets" "addCat") .default = (.ok output, log) :=
      exists_of_isSome (by decide +kernel)
    exact ⟨output, log, hrun, (generate_enumerates _ _).1 output log hrun⟩
  · refine (generate_enumerates (twoRoutes "addCat" "addCat") .default).2 (.inr fun h => ?_)
    refine List.rel_of_pairwise_cons h List.mem_cons_self "addCat" ?_
    exact ⟨⟨rfl, by decide⟩, ⟨rfl, by decide⟩⟩

end Client

end ApiBindings
