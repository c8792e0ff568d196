import ApiBindings.Text.Basic

/-!
Texts in which one character, or one pair of characters, is written as something else.
-/

namespace ApiBindings.Text

variable {x a b c : Char} {r s t : List Char}

theorem expand_cons (c x : Char) (r s : List Char) :
    expand c r (x :: s) = (if x = c then r else [x]) ++ expand c r s :=
  List.flatMap_cons

theorem expand_append_of_not_mem (h : c ∉ s) : expand c r (s ++ t) = s ++ expand c r t := by
  induction s with
  | nil => rfl
  | cons x s ih =>
    rw [List.mem_cons, not_or] at h
    rw [List.cons_append, expand_cons, if_neg (Ne.symm h.1), ih h.2]
    rfl

theorem expand_of_not_mem (h : c ∉ s) : expand c r s = s := by
  simpa [expand] using expand_append_of_not_mem (r := r) (t := []) h

/-- A pair that lies across two texts is none if the second one does not begin with its second
character. -/
theorem contract_append (h : t.head? ≠ some b) (s : List Char) :
    contract a b c (s ++ t) = contract a b c s ++ contract a b c t := by
  fun_induction contract a b c s with
  | case1 => rfl
  | case2 x =>
    cases t with
    | nil => rfl
    | cons y t =>
      have hy : y ≠ b := by simpa using h
      rw [List.singleton_append, contract, if_neg fun he => hy he.2]
      rfl
  | case3 x y rest hpair ih =>
    rw [List.cons_append, List.cons_append, contract, if_pos hpair, ih, List.cons_append]
  | case4 x y rest hpair ih =>
    rw [List.cons_append, List.cons_append, contract, if_neg hpair, ← List.cons_append, ih,
      List.cons_append]

theorem contract_of_not_mem (h : b ∉ s) : contract a b c s = s := by
  fun_induction contract a b c s with
  | case1 => rfl
  | case2 => rfl
  | case3 x y rest hpair => simp_all
  | case4 x y rest _ ih => rw [ih fun hb => h (List.mem_cons_of_mem x hb)]

theorem not_mem_contract (hc : x ≠ c) (h : x ∉ s) : x ∉ contract a b c s := by
  fun_induction contract a b c s with
  | case1 => exact h
  | case2 => exact h
  | case3 => simp_all
  | case4 => simp_all

end ApiBindings.Text
