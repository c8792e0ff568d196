import ApiBindings.Proofs.Document.Pointer
import ApiBindings.Text.Space
import ApiBindings.Text.Split
import Mathlib.Data.List.TakeWhile
import Mathlib.Tactic.SplitIfs

/-!
Texts in pieces. Main statement: the pieces between separators are those of the parts of a text, and
put together again they are the text. A text without white space at its ends is a piece that may be
trimmed.
-/

namespace ApiBindings.Text

theorem pieces_ne_nil (isSeparator : Char → Bool) (s : List Char) : pieces isSeparator s ≠ [] := by
  cases s with
  | nil => exact List.cons_ne_nil _ _
  | cons c cs =>
    rw [pieces]
    split_ifs
    · exact List.cons_ne_nil _ _
    · split <;> exact List.cons_ne_nil _ _

theorem pieces_append_cons (c : Char) (a b : List Char) :
    pieces (· == c) (a ++ c :: b) = pieces (· == c) a ++ pieces (· == c) b := by
  induction a with
  | nil => simp [pieces]
  | cons x xs ih =>
    rw [List.cons_append, pieces, pieces, ih]
    split_ifs
    · rfl
    · cases hpieces : pieces (· == c) xs with
      | nil => exact absurd hpieces (pieces_ne_nil _ xs)
      | cons piece rest => rfl

theorem flatten_pieces (isSeparator : Char → Bool) (s : List Char) :
    (pieces isSeparator s).flatten = s.filter fun c => !isSeparator c := by
  induction s with
  | nil => rfl
  | cons c cs ih =>
    rw [pieces]
    split_ifs with hc
    · rw [List.flatten_cons, List.nil_append, ih, List.filter_cons_of_neg (by simp [hc])]
    · rw [List.filter_cons_of_pos (by simp [hc]), ← ih]
      cases pieces isSeparator cs with
      | nil => rfl
      | cons piece rest => rfl

theorem flatten_runs (keep : Char → Bool) (s : List Char) :
    (runs keep s).flatten = s.filter keep := by
  rw [runs, List.flatten_filter_not_isEmpty, flatten_pieces]
  simp

theorem runs_eq_singleton {keep : Char → Bool} {s : List Char} (hne : s ≠ [])
    (h : ∀ c ∈ s, keep c = true) : runs keep s = [s] := by
  have hpieces : pieces (fun c => !keep c) s = [s] := by
    clear hne
    induction s with
    | nil => rfl
    | cons c s ih =>
      obtain ⟨hc, hs⟩ := List.forall_mem_cons.mp h
      rw [pieces, if_neg (by simp [hc]), ih hs]
  rw [runs, hpieces, List.filter_cons_of_pos (by simpa using hne), List.filter_nil]

theorem runs_cons {keep : Char → Bool} {c : Char} (hc : keep c = false) (s : List Char) :
    runs keep (c :: s) = runs keep s := by
  rw [runs, pieces, if_pos (by simp [hc]), List.filter_cons_of_neg (by simp), runs]

theorem joinWith_cons (sep x : String) {xs : List String} (h : xs ≠ []) :
    joinWith sep (x :: xs) = x ++ sep ++ joinWith sep xs := by
  obtain ⟨y, ys, rfl⟩ := List.exists_cons_of_ne_nil h
  rfl

section Separator

variable {c : Char} {sep : String} (hsep : sep.toList = [c])
include hsep

theorem splitAt_append (x y : String) : splitAt c (x ++ sep ++ y) = splitAt c x ++ splitAt c y := by
  rw [splitAt, String.toList_append, String.toList_append, hsep, List.append_assoc,
    List.singleton_append, pieces_append_cons, List.map_append]
  rfl

theorem splitAt_joinWith {xs : List String} (hne : xs ≠ []) (h : ∀ x ∈ xs, c ∉ x.toList) :
    splitAt c (joinWith sep xs) = xs := by
  induction xs with
  | nil => exact absurd rfl hne
  | cons x xs ih =>
    obtain ⟨hx, hxs⟩ := List.forall_mem_cons.mp h
    by_cases hempty : xs = []
    · rw [hempty]
      exact splitAt_of_not_mem hx
    · rw [joinWith_cons sep x hempty, splitAt_append hsep, splitAt_of_not_mem hx, ih hempty hxs]
      rfl

theorem toList_joinWith_pieces (cs : List Char) :
    (joinWith sep ((pieces (· == c) cs).map String.ofList)).toList = cs := by
  induction cs with
  | nil => rfl
  | cons x xs ih =>
    rw [pieces]
    split_ifs with hx
    · have hne : (pieces (· == c) xs).map String.ofList ≠ [] := by simpa using pieces_ne_nil _ xs
      rw [List.map_cons, joinWith_cons _ _ hne, String.toList_append, String.toList_append, ih,
        hsep, ← eq_of_beq hx]
      rfl
    · cases hpieces : pieces (· == c) xs with
      | nil => exact absurd hpieces (pieces_ne_nil _ xs)
      | cons piece rest =>
        rw [hpieces] at ih
        rw [← ih]
        cases rest with
        | nil => simp [joinWith]
        | cons next rest => simp [joinWith]

theorem joinWith_splitAt (x : String) : joinWith sep (splitAt c x) = x := by
  rw [← String.toList_inj]
  exact toList_joinWith_pieces hsep x.toList

end Separator

def IsFront (c : Char) (front : String) : Prop :=
  front = "" ∨ ∃ before : List Char, front.toList = before ++ [c]

theorem getLastD_splitAt {c : Char} {front segment : String} (hfront : IsFront c front)
    (h : c ∉ segment.toList) : (splitAt c (front ++ segment)).getLastD "" = segment := by
  have hsegment := pieces_of_not_mem h
  rw [splitAt, String.toList_append]
  rcases hfront with rfl | ⟨before, hbefore⟩
  · rw [String.toList_empty, List.nil_append, hsegment, List.map_singleton, String.ofList_toList]
    rfl
  · rw [hbefore, List.append_assoc, List.singleton_append, pieces_append_cons,
      hsegment, List.map_append, List.map_singleton, String.ofList_toList, List.getLastD_concat]

variable {sep begun s t : List Char} {c x : Char}

section SplitOn

theorem after?_cons_of_ne {p : List Char} (h : x ≠ c) : after? (x :: p) (c :: s) = none :=
  if_neg h

theorem splitOnFrom_match (hsep : sep ≠ []) (begun s : List Char) :
    splitOnFrom sep begun (sep ++ s) = begun.reverse :: splitOnFrom sep [] s := by
  obtain ⟨c, sep, rfl⟩ := List.exists_cons_of_ne_nil hsep
  have hafter : after? (c :: sep) (c :: (sep ++ s)) = some s := after?_eq_some_iff.mpr rfl
  rw [List.cons_append, splitOnFrom]
  split
  · simp_all
  · split <;> simp_all

theorem splitOnFrom_skip (hsep : sep ≠ []) (h : after? sep (c :: s) = none) (begun : List Char) :
    splitOnFrom sep begun (c :: s) = splitOnFrom sep (c :: begun) s := by
  rw [splitOnFrom]
  split
  · simp_all
  · split <;> simp_all

theorem splitOnFrom_of_ne (h : c ≠ x) (begun s : List Char) :
    splitOnFrom [x] begun (c :: s) = splitOnFrom [x] (c :: begun) s :=
  splitOnFrom_skip (List.cons_ne_nil _ _) (after?_cons_of_ne (Ne.symm h)) begun

theorem splitOnFrom_append (h : x ∉ s) (begun t : List Char) :
    splitOnFrom [x] begun (s ++ x :: t) = (begun.reverse ++ s) :: splitOn [x] t := by
  induction s generalizing begun with
  | nil =>
    rw [List.append_nil]
    exact splitOnFrom_match (List.cons_ne_nil _ _) begun t
  | cons c s ih =>
    rw [List.mem_cons, not_or] at h
    rw [List.cons_append, splitOnFrom_of_ne (Ne.symm h.1), ih h.2, List.reverse_cons,
      List.append_assoc, List.singleton_append]

theorem splitOn_append (h : x ∉ s) (t : List Char) :
    splitOn [x] (s ++ x :: t) = s :: splitOn [x] t :=
  splitOnFrom_append h [] t

/-- The first piece begins with what is read already. -/
theorem splitOnFrom_cons (sep begun s : List Char) :
    ∃ more rest, splitOnFrom sep begun s = (begun.reverse ++ more) :: rest := by
  fun_induction splitOnFrom sep begun s with
  | case1 begun => exact ⟨[], [], by simp⟩
  | case2 begun c s => exact ⟨c :: s, [], rfl⟩
  | case3 begun c s _ rest _ ih => exact ⟨[], _, by rw [List.append_nil]⟩
  | case4 begun c s _ _ ih =>
    obtain ⟨more, rest, h⟩ := ih
    exact ⟨c :: more, rest, by simpa using h⟩

theorem splitOn_of_not_mem (h : x ∉ s) : splitOn [x] s = [s] := by
  have hfrom (begun : List Char) : splitOnFrom [x] begun s = [begun.reverse ++ s] := by
    induction s generalizing begun with
    | nil => simp [splitOnFrom]
    | cons c s ih =>
      rw [List.mem_cons, not_or] at h
      rw [splitOnFrom_of_ne (Ne.symm h.1), ih h.2]
      simp
  exact hfrom []

theorem glue_cons (sep piece : List Char) {pieces : List (List Char)} (h : pieces ≠ []) :
    glue sep (piece :: pieces) = piece ++ sep ++ glue sep pieces := by
  obtain ⟨y, rest, rfl⟩ := List.exists_cons_of_ne_nil h
  rfl

theorem splitOnFrom_ne_nil (sep begun s : List Char) : splitOnFrom sep begun s ≠ [] := by
  obtain ⟨more, rest, h⟩ := splitOnFrom_cons sep begun s
  simp [h]

theorem glue_splitOnFrom (sep begun s : List Char) :
    glue sep (splitOnFrom sep begun s) = begun.reverse ++ s := by
  fun_induction splitOnFrom sep begun s with
  | case1 begun => simp [glue]
  | case2 begun c s => rfl
  | case3 begun c s _ rest hrest ih =>
    rw [glue_cons _ _ (splitOnFrom_ne_nil _ _ _), ih, after?_eq_some_iff.mp hrest]
    simp
  | case4 begun c s _ _ ih => simpa using ih

theorem glue_splitOn (sep s : List Char) : glue sep (splitOn sep s) = s :=
  glue_splitOnFrom sep [] s

theorem not_mem_splitOnFrom (sep : List Char) (hbegun : x ∉ begun) (h : x ∉ s) :
    ∀ piece ∈ splitOnFrom sep begun s, x ∉ piece := by
  fun_induction splitOnFrom sep begun s with
  | case1 => simpa using hbegun
  | case2 => simp_all
  | case3 begun c cs _ rest hrest ih =>
    have hmem : x ∉ rest := by
      rw [after?_eq_some_iff.mp hrest] at h
      exact fun hx => h (List.mem_append_right sep hx)
    exact List.forall_mem_cons.mpr ⟨by simpa using hbegun, ih List.not_mem_nil hmem⟩
  | case4 begun c cs _ _ ih =>
    rw [List.mem_cons, not_or] at h
    exact ih (by simp [hbegun, h.1]) h.2

end SplitOn

section Trim

theorem trim_cons_of_isSpace (h : isSpace c = true) (s : List Char) : trim (c :: s) = trim s := by
  rw [trim, trimStart, List.dropWhile_cons_of_pos h, ← trimStart, ← trim]

structure IsTight (s : List Char) : Prop where
  first : ∃ c, s.head? = some c ∧ isSpace c = false
  last : ∃ c, s.getLast? = some c ∧ isSpace c = false

theorem IsTight.append (hs : IsTight s) (ht : IsTight t) (m : List Char) :
    IsTight (s ++ (m ++ t)) := by
  obtain ⟨c, hc, hfirst⟩ := hs.first
  obtain ⟨d, hd, hlast⟩ := ht.last
  exact ⟨⟨c, by simp [List.head?_append, hc], hfirst⟩,
    ⟨d, by simp [List.getLast?_append, hd], hlast⟩⟩

theorem isTight_of_forall (hs : s ≠ []) (h : ∀ c ∈ s, isSpace c = false) : IsTight s where
  first := ⟨s.head hs, List.head?_eq_some_head hs, h _ (List.head_mem hs)⟩
  last := ⟨s.getLast hs, List.getLast?_eq_some_getLast hs, h _ (List.getLast_mem hs)⟩

theorem IsTight.trim_append (hs : IsTight s) (ht : ∀ c ∈ t, isSpace c = true) :
    trim (s ++ t) = s := by
  obtain ⟨c, hc, hfirst⟩ := hs.first
  obtain ⟨d, hd, hlast⟩ := hs.last
  obtain ⟨tail, rfl⟩ := List.head?_eq_some_iff.mp hc
  obtain ⟨front, hfront⟩ := List.getLast?_eq_some_iff.mp hd
  have hstart : trimStart (c :: tail ++ t) = c :: tail ++ t :=
    List.dropWhile_cons_of_neg (by simp [hfirst])
  have hend : t.reverse.dropWhile isSpace = [] :=
    List.dropWhile_eq_nil_iff.mpr fun x hx => ht x (List.mem_reverse.mp hx)
  rw [trim, hstart, trimEnd, List.reverse_append, List.dropWhile_append, hend, if_pos (by rfl),
    hfront,
    List.reverse_append, List.reverse_singleton, List.singleton_append,
    List.dropWhile_cons_of_neg (by simp [hlast]), List.reverse_cons, List.reverse_reverse]

theorem IsTight.trim_eq (hs : IsTight s) : trim s = s := by
  simpa using hs.trim_append (t := []) (by simp)

end Trim

end ApiBindings.Text
