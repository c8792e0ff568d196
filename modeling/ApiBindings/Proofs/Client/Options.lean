import ApiBindings.Proofs.Client.Calls
import ApiBindings.Proofs.Operation.Options

/-!
Two runs on one document with different options. Main statement: types, declarations and faults
are the same in both, except for deletions that take a placeholder from the end of their route.
-/

namespace ApiBindings.Client

open Operation (Call Options Bound Corresponds)

variable {document : Value} {options options' : Options} {components : Value}

structure Output.Agrees (o o' : Output) : Prop where
  components : o.components = o'.components
  operations : o.operations = o'.operations
  declared : o.bound.map (·.declared) = o'.bound.map (·.declared)

theorem bindPath_alike {route : Scalar} {path : Value}
    (huncut : ∀ c ∈ pathCalls route path, ¬ c.IsCut) (ho : options.customGenerator = none)
    (ho' : options'.customGenerator = none) :
    Alike (List.Forall₂ Bound.Agrees) (bindPath components options route path)
      (bindPath components options' route path) := by
  unfold bindPath
  refine .after fun _ es _ hes => ?_
  cases Value.entriesOrNone_ok (returns_lift.mp hes).1
  refine .mapM fun e he => .after fun _ operation _ hoperation => ?_
  cases Value.entriesOrNone_ok (returns_lift.mp hoperation).1
  exact Operation.bind_alike (huncut _ (List.mem_map_of_mem he)) ho ho'

theorem codeBlocks_length (components : List Declaration.Block) {bound bound' : List Bound}
    (h : bound.length = bound'.length) :
    (codeBlocks components bound).length = (codeBlocks components bound').length := by
  simp only [codeBlocks, List.length_append, List.length_map, h]

theorem generateIn_alike (huncut : ∀ c ∈ calls document, ¬ c.IsCut)
    (ho : options.customGenerator = none) (ho' : options'.customGenerator = none) :
    Alike Output.Agrees (generateIn document options) (generateIn document options') := by
  unfold generateIn
  refine .after fun _ es _ hes => ?_
  cases Value.entries_ok (returns_lift.mp hes).1
  refine .after fun _ shared _ _ => .after fun _ declared _ _ => .after fun _ routes _ hroutes => ?_
  cases Value.entriesOrNone_ok (returns_lift.mp hroutes).1
  refine .bind (.mapM fun e he => bindPath_alike (fun c hc => huncut c ?_) ho ho') ?_
  · exact List.mem_flatMap.mpr ⟨e, he, hc⟩
  intro bound bound' hbound
  have hbound : List.Forall₂ Bound.Agrees bound.flatten bound'.flatten := List.rel_flatten hbound
  -- the last event counts the operations and the blocks, with those of the hooks among them
  have hblocks := codeBlocks_length declared hbound.length_eq
  dsimp only
  rw [hbound.length_eq, hblocks]
  refine .after fun _ _ _ _ => .pure ⟨rfl, ?_, ?_⟩
  · exact map_eq_of_forall₂ hbound fun _ _ h => h.metadata
  · exact map_eq_of_forall₂ hbound fun _ _ h => h.declared

/-- What two outputs for one document have in common, whatever the options are. -/
structure Output.Corresponds (document : Value) (o o' : Output) : Prop where
  components : o.components = o'.components
  length : o.bound.length = o'.bound.length
  bound : List.Forall₂ (fun c b => Operation.Corresponds c b.1 b.2) (calls document)
    (o.bound.zip o'.bound)

theorem Stages.corresponds {shared shared' : Entries} {output output' : Output}
    {s s' t t' u u' v v' : Session} (h : Stages document options shared output s t u v)
    (h' : Stages document options' shared' output' s' t' u' v') :
    output.Corresponds document output' := by
  obtain ⟨rfl, rfl⟩ := h.narrowed.unique h'.narrowed
  obtain ⟨hcomponents, rfl⟩ := h.declared.unique h'.declared
  have hbound := forall₂_of_returns_mapM h.bound
  have hbound' := forall₂_of_returns_mapM h'.bound
  refine ⟨hcomponents, hbound.length_eq.symm.trans hbound'.length_eq, ?_⟩
  exact forall₂_zip hbound hbound' fun c b b' ⟨_, _, hb⟩ ⟨_, _, hb'⟩ =>
    Operation.bind_corresponds hb hb'

/-- Types do not depend on the options. Without deletions that can take a placeholder the runs fail
alike or agree in all but the hooks; with such deletions this is still so of all other operations
if both runs return, and of the deletions but for the parameters of their routes. -/
theorem generate_alike (document : Value) (ho : options.customGenerator = none)
    (ho' : options'.customGenerator = none) :
    ((∀ c ∈ calls document, ¬ c.IsCut) →
      (∃ e log, generate document options = (.error e, log) ∧
        generate document options' = (.error e, log)) ∨
      ∃ output output' log, generate document options = (.ok output, log) ∧
        generate document options' = (.ok output', log) ∧ output.Agrees output') ∧
    ∀ output output' log log', generate document options = (.ok output, log) →
      generate document options' = (.ok output', log') → output.Corresponds document output' := by
  constructor
  · intro huncut
    rw [generate_eq, generate_eq]
    rcases generateIn_alike huncut ho ho' .start with ⟨e, t, h, h'⟩ | ⟨o, o', t, h, h', hagrees⟩
    · rw [h, h']
      exact .inl ⟨e, t.log, rfl, rfl⟩
    · rw [h, h']
      exact .inr ⟨o, o', t.log, rfl, rfl, hagrees⟩
  · intro output output' log log' h h'
    obtain ⟨shared, s, t, u, v, -, hstages⟩ := generate_stages h
    obtain ⟨shared', s', t', u', v', -, hstages'⟩ := generate_stages h'
    exact hstages.corresponds hstages'

def petRoute (verb : String) : Value :=
  .ofEntries [(.str "paths", .ofEntries [(.str "/pets/{petId}", .ofEntries [
    (.str verb, .ofEntries [(.str "operationId", .str "pet")])])])]

def typesOnly : Options := { Options.default with bindings := false }

theorem generate_alike_petRoute :
    (Options.default.customGenerator = none ∧ typesOnly.customGenerator = none) ∧
    ((∃ e log, generate (petRoute "get") .default = (.error e, log) ∧
        generate (petRoute "get") typesOnly = (.error e, log)) ∨
      ∃ output output' log, generate (petRoute "get") .default = (.ok output, log) ∧
        generate (petRoute "get") typesOnly = (.ok output', log) ∧ output.Agrees output') ∧
    ∃ output output' log log', generate (petRoute "delete") .default = (.ok output, log) ∧
      generate (petRoute "delete") typesOnly = (.ok output', log') ∧
      output.Corresponds (petRoute "delete") output' := by
  have hplain : Options.default.customGenerator = none ∧ typesOnly.customGenerator = none :=
    ⟨rfl, rfl⟩
  have halike := (generate_alike (petRoute "delete") hplain.1 hplain.2).2
  refine ⟨hplain, (generate_alike (petRoute "get") rfl rfl).1 fun c hc hcut => ?_, ?_⟩
  · obtain ⟨rfl⟩ := List.mem_singleton.mp (show c ∈ [_] from hc)
    exact absurd hcut.1 (by decide)
  obtain ⟨output, log, hrun⟩ : ∃ output log, generate (petRoute "delete") .default =
      (.ok output, log) := exists_of_isSome (by decide +kernel)
  obtain ⟨output', log', hrun'⟩ : ∃ output log, generate (petRoute "delete") typesOnly =
      (.ok output, log) := exists_of_isSome (by decide +kernel)
  exact ⟨output, output', log, log', hrun, hrun', halike output output' log log' hrun hrun'⟩

end ApiBindings.Client
