import ApiBindings.Document.Walk
import ApiBindings.Proofs.Document.Tree

/-!
The mappings of a document in preorder. Main statement: the walk comes by each mapping to which
steps lead, by each once, by a mapping before what it contains, and by what stands earlier in a
mapping or a list before what stands later.
-/

namespace ApiBindings.Value

variable {v w : Value} {label : Option Nat} {es : Entries} {items : List Value}
  {step : Step} {steps : List Step} {path : String}

/-- The parts one step below a value, in order. -/
def branches : Value → List (Step × Value)
  | .map _ es => es.map fun e => (.key e.1.text, e.2)
  | .list items => items.zipIdx.map fun item => (.index item.2, item.1)
  | _ => []

/-- The order of the places in a document. A place comes before those below it, and what is below
an earlier part before what is below a later one. -/
inductive Precedes (document : Value) : List Step → List Step → Prop
  | above (steps : List Step) (step : Step) (more : List Step) :
    Precedes document steps (steps ++ step :: more)
  | beside {v : Value} (steps : List Step) {first second : Step} (p q : List Step)
    (hat : document.at? steps = some v)
    (hbeside : [first, second].Sublist (v.branches.map Prod.fst)) :
    Precedes document (steps ++ first :: p) (steps ++ second :: q)

structure IsPreorder (document : Value) (nodes : List (List Step × Entries)) : Prop where
  mem_iff : ∀ steps es,
    (steps, es) ∈ nodes ↔ ∃ label, document.at? steps = some (.map label es)
  ordered : nodes.Pairwise fun a b => document.Precedes a.1 b.1

theorem IsTree.of_mem_branches (hv : v.IsTree) (h : (step, w) ∈ v.branches) : w.IsTree := by
  cases v with
  | map label es =>
    obtain ⟨e, he, heq⟩ := List.mem_map.mp h
    cases heq
    exact (isTree_map.mp hv).2 e he
  | list items =>
    obtain ⟨item, hitem, heq⟩ := List.mem_map.mp h
    cases heq
    exact isTree_list.mp hv item.1 (List.fst_mem_of_mem_zipIdx hitem)
  | _ => cases h

theorem sizeOf_lt_of_mem_branches {b : Step × Value} (h : b ∈ v.branches) :
    sizeOf b.2 < sizeOf v := by
  cases v with
  | map label es =>
    obtain ⟨⟨k, u⟩, he, rfl⟩ := List.mem_map.mp h
    have hlt := List.sizeOf_lt_of_mem he
    simp only [Prod.mk.sizeOf_spec, map.sizeOf_spec] at hlt ⊢
    omega
  | list items =>
    obtain ⟨item, hitem, rfl⟩ := List.mem_map.mp h
    have hlt := List.sizeOf_lt_of_mem (List.fst_mem_of_mem_zipIdx hitem)
    simp only [list.sizeOf_spec]
    omega
  | _ => cases h

theorem text_nodup (hes : es.UnderTexts) : (es.map fun e => e.1.text).Nodup := by
  have hkeys : es.keys = (es.map fun e => e.1.text).map .str := by
    rw [Entries.keys, List.map_map]
    refine List.map_congr_left fun e he => ?_
    obtain ⟨name, hname⟩ := hes.text e he
    rw [Function.comp_apply, hname, Scalar.text]
  exact List.Nodup.of_map _ (hkeys ▸ hes.nodup)

theorem IsTree.nodup_branches (hv : v.IsTree) : (v.branches.map Prod.fst).Nodup := by
  cases v with
  | map label es =>
    have hsteps : (Value.map label es).branches.map Prod.fst =
        (es.map fun e => e.1.text).map .key := by
      rw [branches, List.map_map, List.map_map]
      rfl
    rw [hsteps]
    exact (text_nodup (isTree_map.mp hv).1).map fun _ _ h => Step.key.inj h
  | list items =>
    have hsteps : (Value.list items).branches.map Prod.fst =
        (items.zipIdx.map Prod.snd).map .index := by
      rw [branches, List.map_map, List.map_map]
      rfl
    rw [hsteps]
    exact (List.zipIdx_map_snd 0 items ▸ List.nodup_range').map fun _ _ h => Step.index.inj h
  | _ => exact List.nodup_nil

theorem mem_branches_map (hes : es.UnderTexts) {name : String} :
    (.key name, w) ∈ (Value.map label es).branches ↔ es.get? name = some w := by
  rw [Entries.get?_eq_some_iff hes.nodup, branches, List.mem_map]
  constructor
  · rintro ⟨e, he, heq⟩
    obtain ⟨text, htext⟩ := hes.text e he
    obtain ⟨hname, rfl⟩ := Prod.mk.inj heq
    rw [htext, Scalar.text, Step.key.injEq] at hname
    rw [← hname, ← htext]
    exact he
  · exact fun h => ⟨_, h, rfl⟩

theorem mem_branches_list {n : Nat} :
    (.index n, w) ∈ (Value.list items).branches ↔ items[n]? = some w := by
  rw [← List.mk_mem_zipIdx_iff_getElem?, branches, List.mem_map]
  constructor
  · rintro ⟨item, hitem, heq⟩
    cases heq
    exact hitem
  · exact fun h => ⟨_, h, rfl⟩

theorem IsTree.at?_cons (hv : v.IsTree) :
    v.at? (step :: steps) = some w ↔ ∃ u, (step, u) ∈ v.branches ∧ u.at? steps = some w := by
  cases v with
  | map label es =>
    cases step with
    | key name =>
      simp only [at?, Option.bind_eq_some_iff, mem_branches_map (isTree_map.mp hv).1]
    | index n => simp [at?, branches]
  | list items =>
    cases step with
    | key name => simp [at?, branches]
    | index n => simp only [at?, Option.bind_eq_some_iff, mem_branches_list]
  | _ => cases step <;> simp [at?, branches]

theorem IsTree.at? (hv : v.IsTree) (h : v.at? steps = some w) : w.IsTree := by
  induction steps generalizing v with
  | nil =>
    cases h
    exact hv
  | cons step steps ih =>
    obtain ⟨u, hu, hw⟩ := hv.at?_cons.mp h
    exact ih (hv.of_mem_branches hu) hw

theorem IsTree.ne_of_precedes {p q : List Step} (hv : v.IsTree) (h : v.Precedes p q) : p ≠ q := by
  intro heq
  cases h with
  | above steps step more =>
    have hlength := congrArg List.length heq
    simp at hlength
  | beside steps p q hat hbeside =>
    obtain ⟨hstep, -⟩ := List.cons.inj (List.append_cancel_left heq)
    have htwice := (hv.at? hat).nodup_branches.sublist hbeside
    rw [hstep] at htwice
    simp at htwice

theorem IsPreorder.nodup {nodes : List (List Step × Entries)} (h : IsPreorder v nodes)
    (hv : v.IsTree) : (nodes.map Prod.fst).Nodup :=
  List.pairwise_map.mpr (h.ordered.imp hv.ne_of_precedes)

theorem IsTree.precedes_cons {p q : List Step} (hv : v.IsTree) (hw : (step, w) ∈ v.branches)
    (h : w.Precedes p q) : v.Precedes (step :: p) (step :: q) := by
  cases h with
  | above _ last more => exact .above (step :: p) last more
  | beside steps p q hat hbeside =>
    exact .beside (step :: steps) p q (hv.at?_cons.mpr ⟨w, hw, hat⟩) hbeside

def ownNode : Value → List (List Step × Entries)
  | .map _ es => [([], es)]
  | _ => []

theorem mem_ownNode : (steps, es) ∈ v.ownNode ↔ steps = [] ∧ ∃ label, v = .map label es := by
  cases v <;> simp [ownNode, eq_comm]

def under (step : Step) (node : List Step × Entries) : List Step × Entries :=
  (step :: node.1, node.2)

theorem mem_flatMap_under {N : Step × Value → List (List Step × Entries)} {node} :
    node ∈ v.branches.flatMap (fun b => (N b).map (under b.1)) ↔
      ∃ step w steps, (step, w) ∈ v.branches ∧ (steps, node.2) ∈ N (step, w) ∧
        node.1 = step :: steps := by
  simp only [List.mem_flatMap, List.mem_map, under, Prod.exists, Prod.ext_iff]
  grind

/-- A value comes before its parts, and each part is walked through before the next. -/
theorem isPreorder_of_branches {N : Step × Value → List (List Step × Entries)} (hv : v.IsTree)
    (hN : ∀ b ∈ v.branches, IsPreorder b.2 (N b)) :
    IsPreorder v (v.ownNode ++ v.branches.flatMap fun b => (N b).map (under b.1)) where
  mem_iff steps es := by
    rw [List.mem_append, mem_ownNode, mem_flatMap_under]
    cases steps with
    | nil => simp [at?]
    | cons step steps =>
      have hparts : (∃ label, v.at? (step :: steps) = some (.map label es)) ↔
          ∃ w, (step, w) ∈ v.branches ∧ ∃ label, w.at? steps = some (.map label es) := by
        simp only [hv.at?_cons]
        grind
      rw [hparts]
      constructor
      · rintro (⟨hnil, -⟩ | ⟨_, w, _, hw, hmem, heq⟩)
        · cases hnil
        · cases heq
          exact ⟨w, hw, ((hN _ hw).mem_iff steps es).mp hmem⟩
      · rintro ⟨w, hw, hat⟩
        exact .inr ⟨step, w, steps, hw, ((hN _ hw).mem_iff steps es).mpr hat, rfl⟩
  ordered := by
    rw [List.pairwise_append, List.pairwise_flatMap]
    refine ⟨?_, ⟨fun b hb => ?_, ?_⟩, fun own hown node hnode => ?_⟩
    · cases v <;> simp [ownNode]
    · exact List.pairwise_map.mpr ((hN b hb).ordered.imp (hv.precedes_cons hb))
    -- the nodes of an earlier part stand beside those of a later one
    · refine List.pairwise_iff_forall_sublist.mpr fun {a b} hab => ?_
      simp only [List.forall_mem_map]
      exact fun p _ q _ => .beside [] p.1 q.1 rfl (hab.map Prod.fst)
    · obtain ⟨hnil, -⟩ := mem_ownNode.mp hown
      obtain ⟨step, w, steps, -, -, hsteps⟩ := mem_flatMap_under.mp hnode
      rw [hnil, hsteps]
      exact .above [] step steps

theorem itemMappings_eq (path : String) (index : Nat) (items : List Value) :
    itemMappings path index items =
      (items.zipIdx index).flatMap fun item =>
        item.1.mappings (path ++ "/" ++ Text.ofNat item.2) := by
  induction items generalizing index with
  | nil => rfl
  | cons v vs ih => rw [itemMappings, ih, List.zipIdx_cons, List.flatMap_cons]

theorem entryMappings_eq (path : String) (es : Entries) :
    entryMappings path es = es.flatMap fun e => e.2.mappings (path ++ "/" ++ e.1.text) := by
  induction es with
  | nil => rfl
  | cons e es ih => rw [entryMappings, ih, List.flatMap_cons]

theorem mappings_eq (path : String) (v : Value) :
    v.mappings path = v.ownNode.map (fun node => (path, node.2)) ++
      v.branches.flatMap fun b => b.2.mappings (path ++ "/" ++ b.1.text) := by
  cases v with
  | map label es =>
    rw [mappings, entryMappings_eq, branches, List.flatMap_map]
    rfl
  | list items =>
    rw [mappings, itemMappings_eq, branches, List.flatMap_map]
    rfl
  | _ => rfl

def located (path : String) (node : List Step × Entries) : String × Entries :=
  (path ++ pathText node.1, node.2)

theorem IsTree.exists_isPreorder (hv : v.IsTree) :
    ∃ nodes, IsPreorder v nodes ∧ ∀ path, v.mappings path = nodes.map (located path) := by
  -- by the size of the value, for all kinds of values at once
  induction hn : sizeOf v using Nat.strong_induction_on generalizing v with
  | _ n ih =>
  have hparts : ∀ b ∈ v.branches, ∃ nodes, IsPreorder b.2 nodes ∧
      ∀ path, b.2.mappings path = nodes.map (located path) := by
    intro b hb
    exact ih _ (hn ▸ sizeOf_lt_of_mem_branches hb) (hv.of_mem_branches hb) rfl
  choose! N hN using hparts
  refine ⟨_, isPreorder_of_branches hv fun b hb => (hN b hb).1, fun path => ?_⟩
  rw [mappings_eq, List.map_append, List.map_flatMap]
  congr 1
  · cases v <;> simp [ownNode, located, pathText]
  · refine List.flatMap_congr fun b hb => ?_
    rw [(hN b hb).2, List.map_map]
    refine List.map_congr_left fun node _ => ?_
    simp only [Function.comp_apply, located, under, pathText, String.append_assoc]

end ApiBindings.Value
