import ApiBindings.Hook.Mutation
import Mathlib.Data.List.Nodup
import Mathlib.Tactic.SplitIfs

/-!
The names that hooks export. Main statement: the hooks of two operations share a name exactly if
the operations do, or if one is named for the invalidation of the other.
-/

namespace ApiBindings.Hook

open Operation (Metadata)

def invalidates (m n : Metadata) : Prop :=
  n.verb = "get" ∧ m.componentName = "Invalidate" ++ n.componentName

def hookNames (m : Metadata) : List String :=
  if m.verb = "get" then
    ["Use" ++ m.componentName ++ "Props", "use" ++ m.componentName,
      "useInvalidate" ++ m.componentName]
  else
    (if (mutationFields m).isEmpty then [] else [variablesName m]) ++ ["use" ++ m.componentName]

theorem names_block (h : Hook) (m : Metadata) : (h.block m).names = hookNames m := by
  unfold block hookNames Declaration.Block.names
  by_cases hv : m.verb = "get"
  · simp only [if_pos hv]
    rfl
  · simp only [if_neg hv, mutation]
    by_cases hf : (mutationFields m).isEmpty = true
    · simp only [if_pos hf]
      rfl
    · simp only [if_neg hf]
      rfl

theorem use_ne_interface (a b : String) : "use" ++ a ≠ "Use" ++ b := by
  intro h
  have := congrArg (fun s => s.toList.head?) h
  simp at this

theorem props_ne_variables (a b : String) : a ++ "Props" ≠ b ++ "Variables" := by
  intro h
  have := congrArg (fun s => s.toList.reverse) h
  simp at this

theorem invalidate_ne (a : String) : "Invalidate" ++ a ≠ a := by
  intro h
  have := congrArg String.length h
  simp at this

theorem not_invalidates_self (m : Metadata) : ¬ invalidates m m :=
  fun h => invalidate_ne _ h.2.symm

theorem useInvalidate_eq (a : String) : "useInvalidate" ++ a = "use" ++ ("Invalidate" ++ a) := by
  rw [← String.append_assoc]
  rfl

inductive Names (m : Metadata) : String → Prop where
  | hook : Names m ("use" ++ m.componentName)
  | invalidate (h : m.verb = "get") : Names m ("use" ++ ("Invalidate" ++ m.componentName))
  | props (h : m.verb = "get") : Names m ("Use" ++ (m.componentName ++ "Props"))
  | arguments (h : m.verb ≠ "get") : Names m ("Use" ++ (m.componentName ++ "Variables"))

theorem names_of_mem {m : Metadata} {name : String} (h : name ∈ hookNames m) : Names m name := by
  unfold hookNames variablesName at h
  rw [useInvalidate_eq, String.append_assoc, String.append_assoc] at h
  by_cases hv : m.verb = "get"
  · simp only [if_pos hv, List.mem_cons, List.not_mem_nil, or_false] at h
    rcases h with rfl | rfl | rfl
    · exact .props hv
    · exact .hook
    · exact .invalidate hv
  · simp only [if_neg hv, List.mem_append, List.mem_singleton] at h
    rcases h with h | rfl
    · split_ifs at h
      · cases h
      · rw [List.mem_singleton.mp h]
        exact .arguments hv
    · exact .hook

theorem use_mem_hookNames (m : Metadata) : "use" ++ m.componentName ∈ hookNames m := by
  unfold hookNames
  split <;> simp

theorem invalidate_mem_hookNames {m : Metadata} (h : m.verb = "get") :
    "use" ++ ("Invalidate" ++ m.componentName) ∈ hookNames m := by
  rw [← useInvalidate_eq, hookNames, if_pos h]
  exact .tail _ (.tail _ (.head _))

theorem nodup_hookNames (m : Metadata) : (hookNames m).Nodup := by
  unfold hookNames variablesName
  rw [useInvalidate_eq, String.append_assoc, String.append_assoc]
  split_ifs
  · have huse : "use" ++ m.componentName ≠ "use" ++ ("Invalidate" ++ m.componentName) :=
      fun h => invalidate_ne _ ((String.append_right_inj _).mp h).symm
    simp only [List.nodup_cons, List.mem_cons, List.not_mem_nil, or_false, not_or,
      List.nodup_nil, not_false_eq_true, and_true]
    exact ⟨⟨(use_ne_interface _ _).symm, (use_ne_interface _ _).symm⟩, huse⟩
  · exact List.nodup_singleton _
  · simp only [List.cons_append, List.nil_append, List.nodup_cons, List.mem_singleton,
      List.not_mem_nil, List.nodup_nil, not_false_eq_true, and_true]
    exact (use_ne_interface _ _).symm

theorem Names.apart {m n : Metadata} {a b : String} (hm : Names m a) (hn : Names n b)
    (hne : m.componentName ≠ n.componentName) (hmn : ¬ invalidates m n)
    (hnm : ¬ invalidates n m) : a ≠ b := by
  -- names of one kind differ with the operation, names of two kinds in their first or last word
  intro h
  cases hm with
  | hook =>
    cases hn with
    | hook => exact hne ((String.append_right_inj _).mp h)
    | invalidate hv => exact hmn ⟨hv, (String.append_right_inj _).mp h⟩
    | props => exact use_ne_interface _ _ h
    | arguments => exact use_ne_interface _ _ h
  | invalidate hv =>
    cases hn with
    | hook => exact hnm ⟨hv, ((String.append_right_inj _).mp h).symm⟩
    | invalidate =>
      exact hne ((String.append_right_inj _).mp ((String.append_right_inj _).mp h))
    | props => exact use_ne_interface _ _ h
    | arguments => exact use_ne_interface _ _ h
  | props =>
    cases hn with
    | hook => exact use_ne_interface _ _ h.symm
    | invalidate => exact use_ne_interface _ _ h.symm
    | props =>
      exact hne ((String.append_left_inj _).mp ((String.append_right_inj _).mp h))
    | arguments => exact props_ne_variables _ _ ((String.append_right_inj _).mp h)
  | arguments =>
    cases hn with
    | hook => exact use_ne_interface _ _ h.symm
    | invalidate => exact use_ne_interface _ _ h.symm
    | props => exact props_ne_variables _ _ ((String.append_right_inj _).mp h.symm)
    | arguments =>
      exact hne ((String.append_left_inj _).mp ((String.append_right_inj _).mp h))

theorem disjoint_hookNames_iff {m n : Metadata} :
    (hookNames m).Disjoint (hookNames n) ↔
      m.componentName ≠ n.componentName ∧ ¬ invalidates m n ∧ ¬ invalidates n m := by
  constructor
  · intro h
    refine ⟨fun he => ?_, fun hi => ?_, fun hi => ?_⟩
    · exact h (use_mem_hookNames m) (he ▸ use_mem_hookNames n)
    · exact h (use_mem_hookNames m) (hi.2 ▸ invalidate_mem_hookNames hi.1)
    · exact h (hi.2 ▸ invalidate_mem_hookNames hi.1) (use_mem_hookNames n)
  · rintro ⟨hne, hmn, hnm⟩ name hm hn
    exact (names_of_mem hm).apart (names_of_mem hn) hne hmn hnm rfl

end ApiBindings.Hook
