import ApiBindings.Document.Pointer
import Mathlib.Tactic.SplitIfs

/-!
Keys as segments of a pointer. Main statement: a key that is written as a segment is one segment,
and is read as the key again.
-/

namespace ApiBindings.Text

theorem contract_cons_of_ne {a b c x : Char} (h : x ≠ a) (s : List Char) :
    contract a b c (x :: s) = x :: contract a b c s := by
  cases s with
  | nil => rfl
  | cons y s => rw [contract, if_neg fun hab => h hab.1]

theorem contract_pair (a b c : Char) (s : List Char) :
    contract a b c (a :: b :: s) = c :: contract a b c s := by
  rw [contract, if_pos ⟨rfl, rfl⟩]

theorem pieces_of_not_mem {sep : Char} {s : List Char} (h : sep ∉ s) :
    pieces (· == sep) s = [s] := by
  induction s with
  | nil => rfl
  | cons c cs ih =>
    rw [List.mem_cons, not_or] at h
    rw [pieces, ih h.2, if_neg fun he => h.1 (eq_of_beq he).symm]

theorem splitAt_of_not_mem {sep : Char} {s : String} (h : sep ∉ s.toList) :
    splitAt sep s = [s] := by
  rw [splitAt, pieces_of_not_mem h, List.map_singleton, String.ofList_toList]

theorem dropStart?_append (p s : String) : dropStart? p (p ++ s) = some s := by
  rw [dropStart?, String.toList_append, after?_eq_some_iff.mpr rfl, Option.map_some,
    String.ofList_toList]

theorem dropStart?_apart {p q : String} (hp : ¬ p.toList <+: q.toList)
    (hq : ¬ q.toList <+: p.toList) (s : String) : dropStart? p (q ++ s) = none := by
  rw [dropStart?, Option.map_eq_none_iff, String.toList_append]
  cases h : after? p.toList (q.toList ++ s.toList) with
  | none => rfl
  | some r =>
    have hsplit := after?_eq_some_iff.mp h
    rcases List.prefix_or_prefix_of_prefix (List.prefix_append q.toList s.toList)
      (hsplit ▸ List.prefix_append p.toList r) with hpre | hpre
    · exact absurd hpre hq
    · exact absurd hpre hp

end ApiBindings.Text

namespace ApiBindings.Pointer

/-- A key as a segment: first each tilde is `~0`, then each slash `~1`. -/
def escape (key : String) : String :=
  String.ofList (Text.expand '/' ['~', '1'] (Text.expand '~' ['~', '0'] key.toList))

theorem not_mem_escape (key : String) : '/' ∉ (escape key).toList := by
  rw [escape, String.toList_ofList, Text.expand, List.mem_flatMap]
  rintro ⟨c, -, hc⟩
  split_ifs at hc with h
  · simp at hc
  · exact h (List.mem_singleton.mp hc).symm

theorem contract_slash (cs : List Char) :
    Text.contract '~' '1' '/' (Text.expand '/' ['~', '1'] (Text.expand '~' ['~', '0'] cs)) =
      Text.expand '~' ['~', '0'] cs := by
  induction cs with
  | nil => rfl
  | cons c cs ih =>
    simp only [Text.expand, List.flatMap_cons, List.flatMap_append] at ih ⊢
    by_cases htilde : c = '~'
    · subst htilde
      simp [Text.contract, Text.contract_cons_of_ne, ih]
    · by_cases hslash : c = '/'
      · subst hslash
        simp [Text.contract_pair, ih]
      · simp [htilde, hslash, Text.contract_cons_of_ne, ih]

theorem contract_tilde (cs : List Char) :
    Text.contract '~' '0' '~' (Text.expand '~' ['~', '0'] cs) = cs := by
  induction cs with
  | nil => rfl
  | cons c cs ih =>
    simp only [Text.expand, List.flatMap_cons] at ih ⊢
    by_cases htilde : c = '~'
    · subst htilde
      simp [Text.contract_pair, ih]
    · simp [htilde, Text.contract_cons_of_ne, ih]

theorem unescape_escape (key : String) : unescape (escape key) = key := by
  rw [unescape, escape, String.toList_ofList, contract_slash, contract_tilde, String.ofList_toList]

end ApiBindings.Pointer
