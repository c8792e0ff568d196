import ApiBindings.Text.Basic
import Mathlib.Data.List.Basic
import Mathlib.Data.List.Infix
import Mathlib.Tactic.SplitIfs

/-!
Occurrences of a text in texts that are put together. Main statement: where no occurrence can end in
a piece, the piece brings none in, and after a character that only ends an occurrence any text
without one may follow.
-/

namespace ApiBindings.Text

theorem occursIn_iff {p s : List Char} : occursIn p s = true ↔ p <:+: s := by
  induction s with
  | nil => simp [occursIn]
  | cons c cs ih =>
    have hstart : (after? p (c :: cs)).isSome = true ↔ p <+: c :: cs := by
      rw [Option.isSome_iff_exists, List.prefix_iff_exists_append_eq]
      exact exists_congr fun r => after?_eq_some_iff.trans eq_comm
    rw [occursIn, Bool.or_eq_true, hstart, ih, List.infix_cons_iff]

/-- The characters of a text are looked at one by one, and no others. -/
instance (priority := high) decidableForallChar {p : Char → Prop} [DecidablePred p]
    (cs : List Char) : Decidable (∀ c ∈ cs, p c) :=
  List.decidableBAll p cs

instance (priority := high) decidableExistsChar {p : Char → Prop} [DecidablePred p]
    (cs : List Char) : Decidable (∃ c ∈ cs, p c) :=
  List.decidableBEx p cs

def Occurs (m x : String) : Prop := m.toList <:+: x.toList

instance (m x : String) : Decidable (Occurs m x) := decidable_of_iff _ occursIn_iff

variable {m x y f sep : String} {xs : List String}

namespace Occurs

theorem refl (x : String) : Occurs x x := List.infix_rfl

theorem trans (h : Occurs m x) (h' : Occurs x y) : Occurs m y := List.IsInfix.trans h h'

theorem append_right (h : Occurs m x) (y : String) : Occurs m (x ++ y) := by
  rw [Occurs, String.toList_append]
  exact List.IsInfix.trans h (List.prefix_append _ _).isInfix

theorem append_left (h : Occurs m y) (x : String) : Occurs m (x ++ y) := by
  rw [Occurs, String.toList_append]
  exact List.IsInfix.trans h (List.suffix_append _ _).isInfix

theorem joinWith (h : x ∈ xs) (sep : String) : Occurs x (joinWith sep xs) := by
  induction xs with
  | nil => cases h
  | cons y ys ih =>
    cases ys with
    | nil =>
      obtain rfl := List.mem_singleton.mp h
      exact .refl x
    | cons z zs =>
      rw [Text.joinWith]
      rcases List.mem_cons.mp h with rfl | h
      · exact ((refl x).append_right sep).append_right _
      · exact (ih h).append_left _

theorem eq_empty (h : Occurs m "") : m = "" := by
  rw [← String.toList_eq_nil_iff]
  exact List.infix_nil.mp h

end Occurs

/-- Whatever stands before `x`, no occurrence of `m` ends in `x`. -/
def Quiet (m x : String) : Prop := ∀ w, Occurs m (w ++ x) → Occurs m w

namespace Quiet

theorem empty (m : String) : Quiet m "" := fun w h => by rwa [String.append_empty] at h

theorem append (hx : Quiet m x) (hy : Quiet m y) : Quiet m (x ++ y) := by
  intro w h
  rw [← String.append_assoc] at h
  exact hx w (hy _ h)

theorem joinWith (hsep : Quiet m sep) (h : ∀ x ∈ xs, Quiet m x) :
    Quiet m (joinWith sep xs) := by
  induction xs with
  | nil => exact .empty m
  | cons x xs ih =>
    obtain ⟨hx, hxs⟩ := List.forall_mem_cons.mp h
    cases xs with
    | nil => exact hx
    | cons y ys => exact (hx.append hsep).append (ih hxs)

theorem ite {p : Prop} [Decidable p] (hx : p → Quiet m x) (hy : ¬ p → Quiet m y) :
    Quiet m (if p then x else y) := by
  split_ifs with hp
  · exact hx hp
  · exact hy hp

theorem not_occurs (hm : m ≠ "") (h : Quiet m x) : ¬ Occurs m x := by
  intro ho
  rw [← String.empty_append (s := x)] at ho
  exact hm (h "" ho).eq_empty

end Quiet

theorem not_occurs_append (hx : ¬ Occurs m x) (hy : Quiet m y) : ¬ Occurs m (x ++ y) :=
  fun h => hx (hy x h)

theorem quiet_of_tails (hm : ¬ m.toList <:+: x.toList)
    (h : ∀ r, r <:+ m.toList → r ≠ [] → ¬ r <+: x.toList) : Quiet m x := by
  intro w ho
  rw [Occurs, String.toList_append, List.infix_append_iff] at ho
  rcases ho with ho | ho | ⟨a, b, hab, ha, hb⟩
  · exact ho
  · exact absurd ho hm
  · cases b with
    | nil =>
      rw [List.append_nil] at hab
      rw [Occurs, hab]
      exact ha.isInfix
    | cons c cs => exact absurd hb (h _ (hab ▸ List.suffix_append a _) (List.cons_ne_nil c cs))

theorem quiet_of_not_mem {c : Char} (hc : m.toList.getLast? = some c) (h : c ∉ x.toList) :
    Quiet m x := by
  have hmem {r : List Char} (hr : r <:+ m.toList) (hne : r ≠ []) : c ∈ r := by
    obtain ⟨a, ha⟩ := hr
    rw [← ha, List.getLast?_append_of_ne_nil _ hne] at hc
    exact List.mem_of_mem_getLast? hc
  refine quiet_of_tails (fun ho => ?_) fun r hr hne hx => h (hx.subset (hmem hr hne))
  exact h (ho.subset (List.mem_of_mem_getLast? hc))

theorem quiet_of_head {c : Char} {cs : List Char} (hx : x.toList = c :: cs) (hc : c ∉ m.toList)
    (h : ¬ Occurs m x) : Quiet m x := by
  refine quiet_of_tails h fun r hr hne hstart => ?_
  cases r with
  | nil => exact hne rfl
  | cons d ds =>
    rw [hx, List.cons_prefix_cons] at hstart
    exact hc (hr.subset (hstart.1 ▸ List.mem_cons_self))

def isQuiet (m x : List Char) : Bool :=
  !occursIn m x && m.tails.all fun r => r.isEmpty || !r.isPrefixOf x

theorem quiet_of_isQuiet (h : isQuiet m.toList x.toList = true) : Quiet m x := by
  simp only [isQuiet, Bool.and_eq_true, Bool.not_eq_true', List.all_eq_true, Bool.or_eq_true,
    List.isEmpty_iff, List.mem_tails] at h
  refine quiet_of_tails (fun ho => ?_) fun r hr hne hx => ?_
  · rw [← occursIn_iff, h.1] at ho
    cases ho
  · rw [← List.isPrefixOf_iff_prefix, (h.2 r hr).resolve_left hne] at hx
    cases hx

/-- A character that only ends an occurrence keeps what stands before it from what follows. -/
theorem infix_append_cons {α : Type*} {d : α} {m a b : List α} (hd : d ∉ m.dropLast)
    (h : m <:+: a ++ d :: b) : m <:+: a ++ [d] ∨ m <:+: b := by
  rw [List.append_cons, List.infix_append_iff] at h
  rcases h with h | h | ⟨t, r, rfl, ht, hr⟩
  · exact .inl h
  · exact .inr h
  · cases r with
    | nil => exact .inl (by simpa using ht.isInfix)
    | cons c cs =>
      rw [List.dropLast_append_of_ne_nil (List.cons_ne_nil c cs)] at hd
      rcases List.suffix_concat_iff.mp ht with rfl | ⟨t, rfl, -⟩
      · exact .inr hr.isInfix
      · simp at hd

/-- The text is quiet and ends in a character that only ends an occurrence. -/
structure Fence (m f : String) : Prop where
  quiet : Quiet m f
  ends : ∃ g d, f.toList = g ++ [d] ∧ d ∉ m.toList.dropLast

namespace Fence

theorem append (hf : Fence m f) (hx : ¬ Occurs m x) : Quiet m (f ++ x) := by
  obtain ⟨g, d, hgd, hd⟩ := hf.ends
  intro w ho
  refine hf.quiet w ?_
  rw [Occurs, String.toList_append, String.toList_append, hgd] at ho
  rw [Occurs, String.toList_append, hgd, ← List.append_assoc]
  have hcut : m.toList <:+: (w.toList ++ g) ++ d :: x.toList := by simpa using ho
  exact (infix_append_cons hd hcut).resolve_right hx

theorem of_quiet (hx : Quiet m x) (hf : Fence m f) : Fence m (x ++ f) := by
  obtain ⟨g, d, hgd, hd⟩ := hf.ends
  refine ⟨hx.append hf.quiet, x.toList ++ g, d, ?_, hd⟩
  rw [String.toList_append, hgd, List.append_assoc]

end Fence

theorem Quiet.fenced (hx : Quiet m x) (hf : Fence m f) (hy : ¬ Occurs m y) :
    Quiet m (x ++ f ++ y) :=
  (hf.of_quiet hx).append hy

theorem Fence.not_occurs (hf : Fence m f) (hx : ¬ Occurs m x) (hy : ¬ Occurs m y) :
    ¬ Occurs m (x ++ f ++ y) := by
  rw [String.append_assoc]
  exact not_occurs_append hx (hf.append hy)

def isFence (m f : List Char) : Bool :=
  isQuiet m f && f.getLast?.any fun d => !m.dropLast.contains d

theorem fence_of_isFence (h : isFence m.toList f.toList = true) : Fence m f := by
  rw [isFence, Bool.and_eq_true, Option.any_eq_true] at h
  obtain ⟨hquiet, d, hlast, hd⟩ := h
  obtain ⟨g, hg⟩ := List.getLast?_eq_some_iff.mp hlast
  exact ⟨quiet_of_isQuiet hquiet, g, d, hg, by simpa using hd⟩

theorem not_occurs_joinWith (hm : m ≠ "") (hsep : Fence m sep) (h : ∀ x ∈ xs, ¬ Occurs m x) :
    ¬ Occurs m (joinWith sep xs) := by
  induction xs with
  | nil => exact fun ho => hm ho.eq_empty
  | cons x xs ih =>
    obtain ⟨hx, hxs⟩ := List.forall_mem_cons.mp h
    cases xs with
    | nil => exact hx
    | cons y ys =>
      rw [joinWith, String.append_assoc]
      exact not_occurs_append hx (hsep.append (ih hxs))

theorem not_occurs_of_head {c : Char} {x y : String} (hx : x.toList = [c])
    (hc : m.toList.head? ≠ some c) (hm : m ≠ "") (hy : ¬ Occurs m y) : ¬ Occurs m (x ++ y) := by
  rw [Occurs, String.toList_append, hx, List.singleton_append, List.infix_cons_iff]
  rintro (h | h)
  · cases hl : m.toList with
    | nil => exact hm (String.toList_eq_nil_iff.mp hl)
    | cons d ds =>
      rw [hl, List.cons_prefix_cons] at h
      rw [hl, List.head?_cons, h.1] at hc
      exact hc rfl
  · exact hy h

section Escapes

variable {e : Char} {esc : Char → List Char}

theorem prefix_flatMap {r s : List Char} (he : e ∉ r)
    (hesc : ∀ c ∈ s, esc c = [c] ∨ ∃ tail, esc c = e :: tail) (h : r <+: s.flatMap esc) :
    r <+: s := by
  induction s generalizing r with
  | nil => exact h
  | cons c cs ih =>
    obtain ⟨hc, hcs⟩ := List.forall_mem_cons.mp hesc
    cases r with
    | nil => exact List.nil_prefix
    | cons x r =>
      rw [List.flatMap_cons] at h
      rcases hc with hc | ⟨tail, hc⟩
      · rw [hc, List.singleton_append, List.cons_prefix_cons] at h
        exact List.cons_prefix_cons.mpr ⟨h.1, ih (fun hr => he (List.mem_cons_of_mem x hr)) hcs h.2⟩
      · rw [hc, List.cons_append, List.cons_prefix_cons] at h
        exact absurd (h.1 ▸ List.mem_cons_self) he

/-- Where every character stays or becomes an escape, an occurrence is there already, or begins with
the end of an escape. -/
theorem not_infix_flatMap {m s : List Char} (he : e ∉ m)
    (hesc : ∀ c ∈ s, esc c = [c] ∨ ∃ tail, esc c = e :: tail ∧ ¬ m <:+: e :: tail ∧
      ∀ t r, m = t ++ r → t ≠ [] → t <:+ tail → ¬ c :: r <:+: s)
    (h : ¬ m <:+: s) : ¬ m <:+: s.flatMap esc := by
  induction s with
  | nil => exact h
  | cons c cs ih =>
    have hlater : ¬ m <:+: cs.flatMap esc := by
      refine ih (fun d hd => ?_) fun hcs => h (List.infix_cons hcs)
      rcases hesc d (List.mem_cons_of_mem c hd) with hkept | ⟨tail, htail, hno, hends⟩
      · exact .inl hkept
      · exact .inr ⟨tail, htail, hno, fun t r hm hne ht hcs =>
          hends t r hm hne ht (List.infix_cons hcs)⟩
    have hshape : ∀ d ∈ cs, esc d = [d] ∨ ∃ tail, esc d = e :: tail := fun d hd =>
      (hesc d (List.mem_cons_of_mem c hd)).imp_right fun ⟨tail, htail, _⟩ => ⟨tail, htail⟩
    rw [List.flatMap_cons, List.infix_append_iff]
    -- an occurrence lies in the escape, behind it, or goes over its end
    rintro (ho | ho | ⟨t, r, rfl, ht, hr⟩)
    · rcases hesc c List.mem_cons_self with hkept | ⟨tail, htail, hno, -⟩
      · rw [hkept] at ho
        exact h (ho.trans (List.singleton_append ▸ List.prefix_append [c] cs).isInfix)
      · exact hno (htail ▸ ho)
    · exact hlater ho
    · have hrest : c :: r <+: c :: cs := List.cons_prefix_cons.mpr
        ⟨rfl, prefix_flatMap (fun hmem => he (List.mem_append_right t hmem)) hshape hr⟩
      rcases List.eq_nil_or_concat t with rfl | ⟨t, d, rfl⟩
      · exact hlater hr.isInfix
      · rcases hesc c List.mem_cons_self with hkept | ⟨tail, htail, -, hends⟩
        · rw [hkept] at ht
          have heq : t.concat d = [] ++ [c] := ht.eq_of_length_le (by simp)
          rw [List.concat_eq_append] at heq
          obtain ⟨rfl, hd⟩ := List.append_inj' heq rfl
          rw [List.concat_eq_append, List.singleton_inj.mp hd] at h
          exact h hrest.isInfix
        · rw [htail] at ht
          rcases List.suffix_cons_iff.mp ht with ht | ht
          · exact he (List.mem_append_left r (ht ▸ List.mem_cons_self))
          · exact hends _ r rfl (by simp) ht hrest.isInfix

end Escapes

theorem pieces_infix {isSeparator : Char → Bool} {s piece : List Char}
    (h : piece ∈ pieces isSeparator s) : piece <:+: s := by
  suffices hall : (∀ p ∈ (pieces isSeparator s).head?, p <+: s) ∧
      ∀ p ∈ pieces isSeparator s, p <:+: s from hall.2 piece h
  clear h piece
  induction s with
  | nil => simp [pieces]
  | cons c cs ih =>
    rw [pieces]
    split_ifs
    · refine ⟨by simp, ?_⟩
      simp only [List.mem_cons, forall_eq_or_imp]
      exact ⟨List.nil_infix, fun p hp => List.infix_cons (ih.2 p hp)⟩
    · split
      · simp [List.infix_cons_iff]
      · rename_i first rest hrest
        rw [hrest] at ih
        have hfirst : c :: first <+: c :: cs :=
          List.cons_prefix_cons.mpr ⟨rfl, ih.1 first rfl⟩
        refine ⟨by simpa using hfirst, ?_⟩
        simp only [List.mem_cons, forall_eq_or_imp]
        refine ⟨hfirst.isInfix, fun p hp => List.infix_cons (ih.2 p (List.mem_cons_of_mem _ hp))⟩

theorem occurs_of_mem_splitAt {c : Char} (h : x ∈ splitAt c y) : Occurs x y := by
  obtain ⟨piece, hpiece, rfl⟩ := List.mem_map.mp h
  rw [Occurs, String.toList_ofList]
  exact pieces_infix hpiece

end ApiBindings.Text
