import ApiBindings.Naming.PathTemplate
import ApiBindings.Proofs.Text.Rewritten
import Mathlib.Data.List.TakeWhile
import Mathlib.Tactic.SplitIfs

/-!
Placeholders in a text, wherever its braces stand. Main statements: interpolation leaves them as
they are, and a cut takes the last one away.
-/

namespace ApiBindings.Naming

open Text (isWordChar expand expand_cons)

variable {s a b name before rest : List Char} {c : Char}

def IsWord (name : List Char) : Prop := name ≠ [] ∧ ∀ c ∈ name, isWordChar c = true

instance : DecidablePred IsWord := fun name =>
  decidable_of_iff (name ≠ [] ∧ name.all isWordChar = true) (by simp [IsWord])

theorem IsWord.not_mem (h : IsWord name) (hc : isWordChar c = false) : c ∉ name := by
  intro hm
  have hword := h.2 c hm
  rw [hc] at hword
  cases hword

theorem eq_of_append_cons {a' b' : List Char} (ha : c ∉ a) (ha' : c ∉ a')
    (h : a ++ c :: b = a' ++ c :: b') : a = a' ∧ b = b' := by
  rcases List.append_eq_append_iff.mp h with ⟨x, rfl, hx⟩ | ⟨x, rfl, hx⟩
  · cases x with
    | nil => simpa using hx
    | cons d x => simp_all
  · cases x with
    | nil => simpa [eq_comm] using hx
    | cons d x => simp_all

/-- The last occurrence of a character parts a text in one way, as the first one does. -/
theorem eq_of_append_cons_last {a' b' : List Char} (hb : c ∉ b) (hb' : c ∉ b')
    (h : a ++ c :: b = a' ++ c :: b') : a = a' ∧ b = b' := by
  have hreverse : b.reverse ++ c :: a.reverse = b'.reverse ++ c :: a'.reverse := by
    simpa using congrArg List.reverse h
  obtain ⟨hback, hfront⟩ := eq_of_append_cons (by simpa using hb) (by simpa using hb') hreverse
  exact ⟨List.reverse_inj.mp hfront, List.reverse_inj.mp hback⟩

theorem placeholderTail?_eq_some_iff :
    placeholderTail? s = some (name, rest) ↔ s = name ++ '\x7d' :: rest ∧ IsWord name := by
  have hclose : isWordChar '\x7d' = false := by decide
  constructor
  · intro h
    have hparts := List.takeWhile_append_dropWhile (p := isWordChar) (l := s)
    unfold placeholderTail? at h
    dsimp only at h
    split at h
    · rename_i tail htail
      split_ifs at h with hempty
      cases h
      rw [htail] at hparts
      exact ⟨hparts.symm, by simpa using hempty, fun c hc => List.mem_takeWhile_imp hc⟩
    · cases h
  · rintro ⟨rfl, hne, hword⟩
    rw [placeholderTail?, List.takeWhile_append_of_pos hword, List.dropWhile_append_of_pos hword]
    simp [hclose, hne]

theorem placeholderTail?_word (h : IsWord name) :
    placeholderTail? (name ++ '\x7d' :: rest) = some (name, rest) :=
  placeholderTail?_eq_some_iff.mpr ⟨rfl, h⟩

theorem eq_of_placeholderTail? {found tail : List Char} (hclose : '\x7d' ∉ name)
    (h : placeholderTail? (name ++ '\x7d' :: rest) = some (found, tail)) :
    name = found ∧ rest = tail ∧ IsWord name := by
  obtain ⟨he, hword⟩ := placeholderTail?_eq_some_iff.mp h
  obtain ⟨rfl, rfl⟩ := eq_of_append_cons hclose (hword.not_mem (by decide)) he
  exact ⟨rfl, rfl, hword⟩

theorem placeholderTail?_not_word (hclose : '\x7d' ∉ name) (h : ¬ IsWord name) :
    placeholderTail? (name ++ '\x7d' :: rest) = none := by
  cases hfound : placeholderTail? (name ++ '\x7d' :: rest) with
  | none => rfl
  | some found => exact absurd (eq_of_placeholderTail? hclose hfound).2.2 h

theorem isWord_of_mem (h : name ∈ placeholderNames s) : IsWord name := by
  induction s with
  | nil => cases h
  | cons x xs ih =>
    rw [placeholderNames] at h
    split_ifs at h
    · split at h
      · rename_i found rest hfound
        rcases List.mem_cons.mp h with rfl | h
        · exact (placeholderTail?_eq_some_iff.mp hfound).2
        · exact ih h
      · exact ih h
    · exact ih h

theorem isWord_of_mem_placeholders {route x : String} (h : x ∈ placeholders route) :
    IsWord x.toList := by
  obtain ⟨name, hname, rfl⟩ := List.mem_map.mp h
  rw [String.toList_ofList]
  exact isWord_of_mem hname

theorem placeholderNames_append (h : '\x7b' ∉ a) :
    placeholderNames (a ++ rest) = placeholderNames rest := by
  induction a with
  | nil => rfl
  | cons c a ih =>
    rw [List.mem_cons, not_or] at h
    rw [List.cons_append, placeholderNames, if_neg (Ne.symm h.1), ih h.2]

section Interpolation

theorem takeWhile_expand (s : List Char) :
    (expand '\x7b' ['$', '\x7b'] s).takeWhile isWordChar = s.takeWhile isWordChar := by
  have hopen : isWordChar '\x7b' = false := by decide
  have hdollar : isWordChar '$' = false := by decide
  induction s with
  | nil => rfl
  | cons x s ih =>
    rw [expand_cons]
    by_cases hx : x = '\x7b'
    · simp [hx, hopen, hdollar]
    · simp [hx, List.takeWhile_cons, ih]

theorem dropWhile_expand (s : List Char) :
    (expand '\x7b' ['$', '\x7b'] s).dropWhile isWordChar =
      expand '\x7b' ['$', '\x7b'] (s.dropWhile isWordChar) := by
  have hopen : isWordChar '\x7b' = false := by decide
  have hdollar : isWordChar '$' = false := by decide
  induction s with
  | nil => rfl
  | cons x s ih =>
    rw [expand_cons]
    by_cases hx : x = '\x7b'
    · simp [hx, hopen, hdollar, expand_cons]
    · by_cases hword : isWordChar x = true
      · simp [hx, hword, ih]
      · simp [hx, hword, expand_cons]

theorem placeholderTail?_expand (s : List Char) :
    placeholderTail? (expand '\x7b' ['$', '\x7b'] s) =
      (placeholderTail? s).map fun found => (found.1, expand '\x7b' ['$', '\x7b'] found.2) := by
  rw [placeholderTail?, placeholderTail?, takeWhile_expand, dropWhile_expand]
  cases s.dropWhile isWordChar with
  | nil => rfl
  | cons x rest =>
    rw [expand_cons]
    by_cases hopen : x = '\x7b'
    · simp [hopen]
    · by_cases hclose : x = '\x7d'
      · by_cases hempty : (s.takeWhile isWordChar).isEmpty = true <;> simp [hclose, hempty]
      · simp [hopen, hclose]

theorem placeholderNames_expand (s : List Char) :
    placeholderNames (expand '\x7b' ['$', '\x7b'] s) = placeholderNames s := by
  induction s with
  | nil => rfl
  | cons x s ih =>
    rw [expand_cons]
    by_cases hx : x = '\x7b'
    · rw [if_pos hx, List.cons_append, placeholderNames, if_neg (by decide), List.singleton_append,
        placeholderNames, if_pos rfl, placeholderTail?_expand, ih, hx, placeholderNames, if_pos rfl]
      cases placeholderTail? s <;> rfl
    · rw [if_neg hx, List.singleton_append, placeholderNames, if_neg hx, ih, placeholderNames,
        if_neg hx]

theorem placeholders_interpolated (route : String) :
    placeholders (interpolated route) = placeholders route := by
  rw [placeholders, placeholders, interpolated, String.toList_ofList, placeholderNames_expand]

end Interpolation

section Cut

/-- No placeholder goes over a character that is neither in a name nor closes one. -/
theorem placeholderTail?_append_cons (hc : isWordChar c = false) (hclose : c ≠ '\x7d') :
    placeholderTail? (a ++ c :: b) =
      (placeholderTail? a).map fun found => (found.1, found.2 ++ c :: b) := by
  have htake : (a ++ c :: b).takeWhile isWordChar = a.takeWhile isWordChar := by
    induction a with
    | nil => simp [hc]
    | cons x a ih => simp [List.takeWhile_cons, ih]
  have hdrop : (a ++ c :: b).dropWhile isWordChar = a.dropWhile isWordChar ++ c :: b := by
    induction a with
    | nil => simp [hc]
    | cons x a ih => by_cases hx : isWordChar x = true <;> simp_all
  rw [placeholderTail?, placeholderTail?, htake, hdrop]
  cases a.dropWhile isWordChar with
  | nil => simp [hclose]
  | cons x rest =>
    by_cases hx : x = '\x7d'
    · by_cases hempty : (a.takeWhile isWordChar).isEmpty = true <;> simp [hx, hempty]
    · simp [hx]

theorem placeholderNames_append_cons (hc : isWordChar c = false) (hclose : c ≠ '\x7d') :
    placeholderNames (a ++ c :: b) = placeholderNames a ++ placeholderNames (c :: b) := by
  induction a with
  | nil => rfl
  | cons x a ih =>
    rw [List.cons_append, placeholderNames, placeholderNames, ih]
    split_ifs
    · rw [placeholderTail?_append_cons hc hclose]
      cases placeholderTail? a <;> rfl
    · rfl

def endings : List (List Char) := [[], ['/'], ['\n'], ['/', '\n']]

theorem closingPlaceholder?_eq_some (h : closingPlaceholder? s = some name) :
    ∃ ending ∈ endings, s = '/' :: '$' :: '\x7b' :: (name ++ '\x7d' :: ending) ∧ IsWord name := by
  unfold closingPlaceholder? at h
  split at h
  · split at h
    · rename_i found ending hfound
      split_ifs at h with hending
      cases h
      obtain ⟨rfl, hword⟩ := placeholderTail?_eq_some_iff.mp hfound
      exact ⟨ending, by simpa [endings] using hending, rfl, hword⟩
    · cases h
  · cases h

theorem cutClosing?_eq_some (h : cutClosing? s = some (before, name)) :
    ∃ ending ∈ endings, s = before ++ '/' :: '$' :: '\x7b' :: (name ++ '\x7d' :: ending) ∧
      IsWord name := by
  induction s generalizing before with
  | nil => cases h
  | cons x xs ih =>
    rw [cutClosing?] at h
    split at h
    · rename_i found hfound
      cases h
      exact closingPlaceholder?_eq_some hfound
    · obtain ⟨⟨before', name'⟩, hcut, heq⟩ := Option.map_eq_some_iff.mp h
      cases heq
      obtain ⟨ending, hending, rfl, hword⟩ := ih hcut
      exact ⟨ending, hending, rfl, hword⟩

theorem not_mem_closing {ending : List Char} (hname : IsWord name) (hending : ending ∈ endings) :
    '\x7b' ∉ name ++ '\x7d' :: ending := by
  have hclose : ∀ e ∈ endings, '\x7b' ∉ '\x7d' :: e := by decide
  rw [List.mem_append, not_or]
  exact ⟨hname.not_mem (by decide), hclose ending hending⟩

theorem closingPlaceholder?_word {ending : List Char} (hname : IsWord name)
    (hending : ending ∈ endings) :
    closingPlaceholder? ('/' :: '$' :: '\x7b' :: (name ++ '\x7d' :: ending)) = some name := by
  rw [closingPlaceholder?, placeholderTail?_word hname]
  exact if_pos (by simpa [endings] using hending)

theorem isSome_cutClosing? (h : (closingPlaceholder? s).isSome = true) (before : List Char) :
    (cutClosing? (before ++ s)).isSome = true := by
  induction before with
  | nil =>
    cases s with
    | nil => exact h
    | cons c s =>
      obtain ⟨name, hname⟩ := Option.isSome_iff_exists.mp h
      rw [List.nil_append, cutClosing?, hname]
      rfl
  | cons c before ih =>
    rw [List.cons_append, cutClosing?]
    split
    · rfl
    · rw [Option.isSome_map, ih]

/-- There is one way to cut a text, since no brace is open behind the closing placeholder. -/
theorem cutClosing?_eq_some_iff : cutClosing? s = some (before, name) ↔
    ∃ ending ∈ endings, s = before ++ '/' :: '$' :: '\x7b' :: (name ++ '\x7d' :: ending) ∧
      IsWord name := by
  refine ⟨cutClosing?_eq_some, ?_⟩
  rintro ⟨ending, hending, rfl, hname⟩
  have hword := closingPlaceholder?_word hname hending
  have hcut := isSome_cutClosing? (Option.isSome_of_eq_some hword) before
  obtain ⟨⟨before', name'⟩, hcut⟩ := Option.isSome_iff_exists.mp hcut
  obtain ⟨ending', hending', he, hname'⟩ := cutClosing?_eq_some hcut
  have hparts : (before ++ ['/', '$']) ++ '\x7b' :: (name ++ '\x7d' :: ending) =
      (before' ++ ['/', '$']) ++ '\x7b' :: (name' ++ '\x7d' :: ending') := by simpa using he
  obtain ⟨hfront, hback⟩ := eq_of_append_cons_last (not_mem_closing hname hending)
    (not_mem_closing hname' hending') hparts
  obtain ⟨rfl, -⟩ :=
    eq_of_append_cons (hname.not_mem (by decide)) (hname'.not_mem (by decide)) hback
  rw [hcut, List.append_cancel_right hfront]

theorem placeholderNames_cut (h : cutClosing? s = some (before, name)) :
    placeholderNames s = placeholderNames before ++ [name] := by
  obtain ⟨ending, hending, rfl, hword⟩ := cutClosing?_eq_some h
  have hnone : placeholderNames (name ++ '\x7d' :: ending) = [] := by
    rw [← List.append_nil (name ++ '\x7d' :: ending),
      placeholderNames_append (not_mem_closing hword hending)]
    rfl
  rw [placeholderNames_append_cons (by decide) (by decide), placeholderNames, if_neg (by decide),
    placeholderNames, if_neg (by decide), placeholderNames, if_pos rfl, placeholderTail?_word hword,
    hnone]

theorem placeholders_cut {route before name : String} (h : cutLast? route = some (before, name)) :
    placeholders route = placeholders before ++ [name] := by
  obtain ⟨⟨chars, word⟩, hcut, heq⟩ := Option.map_eq_some_iff.mp h
  cases heq
  rw [placeholders, placeholderNames_cut hcut, placeholders, String.toList_ofList]
  simp

def IsClosedBy (route before name : String) : Prop :=
  ∃ ending ∈ endings, route.toList =
      before.toList ++ '/' :: '$' :: '\x7b' :: (name.toList ++ '\x7d' :: ending) ∧
    IsWord name.toList

theorem cutLast?_eq_some_iff {route before name : String} :
    cutLast? route = some (before, name) ↔ IsClosedBy route before name := by
  rw [IsClosedBy, ← cutClosing?_eq_some_iff, cutLast?, Option.map_eq_some_iff]
  constructor
  · rintro ⟨⟨chars, word⟩, hcut, heq⟩
    cases heq
    rw [hcut, String.toList_ofList, String.toList_ofList]
  · intro hcut
    exact ⟨_, hcut, Prod.ext String.ofList_toList String.ofList_toList⟩

end Cut

end ApiBindings.Naming
