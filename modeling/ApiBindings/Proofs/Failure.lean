import ApiBindings.Fault
import Mathlib.Tactic.SplitIfs

/-!
Computations that fail: the faults that their steps can end with.
-/

namespace ApiBindings

variable {P : Fault → Prop} {α β : Type}

/-- Every fault that the computation ends with satisfies `P`. -/
def FaultsIn (P : Fault → Prop) (x : Except Fault α) : Prop := ∀ e, x = .error e → P e

/-- The fault that a computation ends with, if it does. -/
def fault? : Except Fault α → Option Fault
  | .error e => some e
  | .ok _ => none

theorem eq_error_of_fault? {x : Except Fault α} {e : Fault} (h : fault? x = some e) :
    x = .error e := by
  cases x with
  | error e' => rw [Option.some.inj h]
  | ok a => cases h

theorem faultsIn_ok (a : α) : FaultsIn P (.ok a : Except Fault α) := by
  intro e h
  cases h

theorem faultsIn_error {e : Fault} (h : P e) : FaultsIn P (.error e : Except Fault α) := by
  intro _ he
  cases he
  exact h

/-- A second step has to be looked at for the results of the first step only. -/
theorem faultsIn_bind {x : Except Fault α} {f : α → Except Fault β} (hx : FaultsIn P x)
    (hf : ∀ a, x = .ok a → FaultsIn P (f a)) : FaultsIn P (x >>= f) := by
  cases x with
  | error e => exact faultsIn_error (hx e rfl)
  | ok a => exact hf a rfl

theorem faultsIn_mapM {f : α → Except Fault β} {xs : List α} (hf : ∀ x ∈ xs, FaultsIn P (f x)) :
    FaultsIn P (xs.mapM f) := by
  induction xs with
  | nil => exact faultsIn_ok []
  | cons x xs ih =>
    rw [List.mapM_cons]
    refine faultsIn_bind (hf x List.mem_cons_self) fun b _ => ?_
    exact faultsIn_bind (ih fun y hy => hf y (List.mem_cons_of_mem x hy)) fun bs _ => faultsIn_ok _

end ApiBindings
