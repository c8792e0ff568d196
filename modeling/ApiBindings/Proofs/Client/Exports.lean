import ApiBindings.Proofs.Client.Calls
import ApiBindings.Proofs.Hook.Names
import Mathlib.Data.List.Perm.Basic
import Mathlib.Tactic.SplitIfs

/-!
The names that a generated file exports. Main statement: where no clash is told, they are distinct
exactly if those of the hooks are apart, since hooks register no names.
-/

namespace ApiBindings.Client

open Operation (Options Bound Metadata)
open Declaration (Block)

def Output.declaredNames (o : Output) : List String :=
  o.components.flatMap Block.names ++ o.bound.flatMap fun b => b.declared.names

def Output.hookNames (o : Output) : List String := o.bound.flatMap fun b => b.hooks.names

theorem Output.exports_perm (o : Output) : (o.declaredNames ++ o.hookNames).Perm o.exports := by
  rw [declaredNames, hookNames, exports, List.append_assoc]
  exact (List.flatMap_append_perm _ _ _).append_left _

def IsBound (options : Options) (b : Bound) : Prop :=
  ∃ components c s t, Returns (Operation.bind components options c) s b t

theorem IsBound.hookNames {options : Options} {b : Bound} (h : IsBound options b) :
    b.hooks.names = if options.bindings then Hook.hookNames b.metadata else [] := by
  obtain ⟨components, c, s, t, h⟩ := h
  obtain ⟨id, p, log, u, hmade⟩ := Operation.bind_steps h
  rw [Block.names, Operation.statements_of_bindingsOf hmade.hooks]
  split_ifs
  · exact Hook.names_block _ b.metadata
  · rfl

theorem narrowedComponents_returns {document es : Entries} {s t : Session}
    (h : Returns (narrowedComponents document) s es t) : t.registry = s.registry := by
  rw [narrowedComponents] at h
  obtain ⟨components, -, h⟩ := returns_lift_bind.mp h
  dsimp only at h
  split_ifs at h
  · obtain ⟨narrowed, u, htold, h⟩ := returns_bind.mp h
    obtain ⟨log, -, rfl⟩ := returns_telling.mp htold
    obtain ⟨-, rfl⟩ := returns_pure.mp h
    rfl
  · obtain ⟨-, rfl⟩ := returns_pure.mp h
    rfl

theorem bind_registers {components : Value} {options : Options} {c : Operation.Call}
    {s t : Session} {b : Bound} (h : Returns (Operation.bind components options c) s b t) :
    Registers s b.declared.names t := by
  obtain ⟨id, p, log, u, hmade⟩ := Operation.bind_steps h
  rw [hmade.declared, Operation.Plan.names_block]
  exact hmade.registers

theorem Stages.registers {document : Value} {options : Options} {shared : Entries}
    {output : Output} {s t u v : Session} (h : Stages document options shared output s t u v) :
    Registers s output.declaredNames v := by
  have hcomponents := Declaration.componentBlocks_registers h.declared
  have hbound := Registers.mapM _ (fun _ _ _ _ _ hb => bind_registers hb) h.bound
  have htold : Registers u [] v := by
    obtain ⟨event, rfl⟩ := h.told
    exact .none rfl fun _ he => List.mem_append_left _ he
  have hall := (hcomponents.trans hbound).trans htold
  rwa [List.append_nil] at hall

theorem generate_returns {document : Value} {options : Options} {output : Output} {log : Log}
    (h : generate document options = (.ok output, log)) (hlog : NoClash log) :
    output.declaredNames.Nodup ∧ ∀ b ∈ output.bound, IsBound options b := by
  obtain ⟨shared, s, t, u, v, rfl, hstages⟩ := generate_stages h
  obtain ⟨hgrown, hnodup⟩ := hstages.registers.grown hlog
  rw [narrowedComponents_returns hstages.narrowed] at hgrown hnodup
  have hregistered : v.registry.names = output.declaredNames := hgrown
  refine ⟨hregistered ▸ hnodup List.nodup_nil, fun b hb => ?_⟩
  obtain ⟨c, -, w, x, hbound⟩ := mem_of_returns_mapM hstages.bound hb
  exact ⟨_, c, w, x, hbound⟩

/-- No two hooks share a name, and none has the name of a declaration. -/
structure Output.HooksApart (o : Output) : Prop where
  components : (o.operations.map (·.componentName)).Nodup
  invalidated : ∀ m ∈ o.operations, ∀ n ∈ o.operations, ¬ Hook.invalidates m n
  declared : ∀ m ∈ o.operations, ∀ name ∈ Hook.hookNames m, name ∉ o.declaredNames

theorem Output.hooksApart_iff {o : Output} (hd : o.declaredNames.Nodup)
    (hh : ∀ b ∈ o.bound, b.hooks.names = Hook.hookNames b.metadata) :
    o.exports.Nodup ↔ o.HooksApart := by
  have hnames : o.hookNames = o.operations.flatMap Hook.hookNames := by
    rw [Output.hookNames, Output.operations, List.flatMap_map]
    exact List.flatMap_congr hh
  rw [← o.exports_perm.nodup_iff, List.nodup_append, hnames, List.nodup_flatMap]
  constructor
  · rintro ⟨-, ⟨-, hpairs⟩, hapart⟩
    have hpairs : o.operations.Pairwise fun m n => m.componentName ≠ n.componentName ∧
        ¬ Hook.invalidates m n ∧ ¬ Hook.invalidates n m :=
      hpairs.imp fun h => Hook.disjoint_hookNames_iff.mp h
    refine ⟨List.pairwise_map.mpr (hpairs.imp And.left), ?_, ?_⟩
    · have hall := List.Pairwise.forall_of_forall_of_flip
        (fun m _ => Hook.not_invalidates_self m) (hpairs.imp fun h => h.2.1)
        (hpairs.imp fun h => h.2.2)
      exact fun m hm n hn => hall hm hn
    · intro m hm name hname hdecl
      exact hapart name hdecl name (List.mem_flatMap.mpr ⟨m, hm, hname⟩) rfl
  · intro h
    refine ⟨hd, ⟨fun m _ => Hook.nodup_hookNames m, ?_⟩, ?_⟩
    · refine (List.pairwise_map.mp h.components).imp_of_mem fun hm hn hne => ?_
      exact Hook.disjoint_hookNames_iff.mpr ⟨hne, h.invalidated _ hm _ hn, h.invalidated _ hn _ hm⟩
    · rintro a ha b hb rfl
      obtain ⟨m, hm, hname⟩ := List.mem_flatMap.mp hb
      exact h.declared m hm a hname ha

/-- Where no clash is told, the names of the declarations are distinct. Those of the hooks pass
the registry by, so that the exports are distinct only if the hooks happen to be apart. -/
theorem exports_nodup_iff {document : Value} {options : Options} {output : Output} {log : Log}
    (h : generate document options = (.ok output, log)) (hlog : NoClash log) :
    output.exports.Nodup ↔ (options.bindings = true → output.HooksApart) := by
  obtain ⟨hd, hbound⟩ := generate_returns h hlog
  by_cases hb : options.bindings = true
  · have hh : ∀ b ∈ output.bound, b.hooks.names = Hook.hookNames b.metadata := by
      intro b hmem
      rw [(hbound b hmem).hookNames, if_pos hb]
    rw [Output.hooksApart_iff hd hh]
    exact ⟨fun h _ => h, fun h => h hb⟩
  · have hh : output.hookNames = [] := by
      refine List.flatMap_eq_nil_iff.mpr fun b hmem => ?_
      rw [(hbound b hmem).hookNames, if_neg hb]
    rw [← output.exports_perm.nodup_iff, hh, List.append_nil]
    exact ⟨fun _ h => absurd h hb, fun _ => hd⟩

theorem noClash_of_quiet {log : Log} (h : ∀ e ∈ log, e.level ≠ .warning) : NoClash log :=
  fun _ _ _ hc => h _ hc rfl

def listing (id : String) : Value :=
  .ofEntries [(.str "get", .ofEntries [(.str "operationId", .str id)])]

def twinListings : Value :=
  .ofEntries [(.str "paths", .ofEntries [(.str "/a", listing "listPets"),
    (.str "/b", listing "list-pets")])]

theorem generate_twinListings : ∃ output log, generate twinListings .default = (.ok output, log) ∧
    NoClash log ∧ output.exports = ["UseListPetsProps", "useListPets", "useInvalidateListPets",
      "UseListPetsProps", "useListPets", "useInvalidateListPets"] := by
  have hquiet : ∀ e ∈ (generate twinListings .default).2, e.level ≠ .warning := by
    decide +kernel
  obtain ⟨output, log, hrun, hexports⟩ := exists_of_map_eq_some (show
    (generate twinListings .default).1.toOption.map Output.exports = some ["UseListPetsProps",
      "useListPets", "useInvalidateListPets", "UseListPetsProps", "useListPets",
      "useInvalidateListPets"] by decide +kernel)
  rw [hrun] at hquiet
  exact ⟨output, log, hrun, noClash_of_quiet hquiet, hexports⟩

theorem exports_nodup_iff_twinListings : ∃ output log,
    generate twinListings .default = (.ok output, log) ∧ NoClash log ∧
      (output.exports.Nodup ↔ (Operation.Options.default.bindings = true → output.HooksApart)) := by
  obtain ⟨output, log, h, hlog, -⟩ := generate_twinListings
  exact ⟨output, log, h, hlog, exports_nodup_iff h hlog⟩

/-- Hooks of one name are not told of. -/
theorem exports_clash_untold : ∃ output log,
    generate twinListings .default = (.ok output, log) ∧ NoClash log ∧ ¬ output.exports.Nodup := by
  obtain ⟨output, log, h, hlog, hexports⟩ := generate_twinListings
  refine ⟨output, log, h, hlog, ?_⟩
  rw [hexports]
  decide

end ApiBindings.Client
