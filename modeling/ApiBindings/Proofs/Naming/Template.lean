import ApiBindings.Proofs.Naming.Placeholders
import Mathlib.Data.List.Basic

/-!
Routes as characters and placeholders. Main statement: a closing placeholder is cut exactly off
the end of a route, with the slash before it and at most one slash behind it.
-/

namespace ApiBindings.Naming

inductive Segment where
  | char (c : Char)
  | placeholder (name : List Char)
deriving DecidableEq

/-- The characters that stand for more than themselves in a route or in a template. -/
def specials : List Char := ['\x7b', '\x7d', '$', '`', '\\', '\n']

def Segment.IsPlain : Segment → Prop
  | .char c => c ∉ specials
  | .placeholder name => name ≠ [] ∧ ∀ c ∈ name, Text.isWordChar c = true

instance : DecidablePred Segment.IsPlain
  | .char c => inferInstanceAs (Decidable (c ∉ specials))
  | .placeholder name => inferInstanceAs (Decidable (IsWord name))

def Segment.IsDelimited : Segment → Prop
  | .char c => c ∉ ['\x7b', '\x7d']
  | .placeholder name => name ≠ [] ∧ ∀ c ∈ ['\x7b', '\x7d', '/'], c ∉ name

instance : DecidablePred Segment.IsDelimited
  | .char c => inferInstanceAs (Decidable (c ∉ ['\x7b', '\x7d']))
  | .placeholder name =>
    inferInstanceAs (Decidable (name ≠ [] ∧ ∀ c ∈ ['\x7b', '\x7d', '/'], c ∉ name))

def routeChars : List Segment → List Char
  | [] => []
  | .char c :: rest => c :: routeChars rest
  | .placeholder name :: rest => '\x7b' :: (name ++ '\x7d' :: routeChars rest)

def templateChars : List Segment → List Char
  | [] => []
  | .char c :: rest => c :: templateChars rest
  | .placeholder name :: rest => '$' :: '\x7b' :: (name ++ '\x7d' :: templateChars rest)

def names : List Segment → List (List Char)
  | [] => []
  | .char _ :: rest => names rest
  | .placeholder name :: rest => name :: names rest

def fill (value : List Char → List Char) : List Segment → List Char
  | [] => []
  | .char c :: rest => c :: fill value rest
  | .placeholder name :: rest => value name ++ fill value rest

/-- The segments of the body of a template literal; inside of `name` an interpolation is open.
A backtick would end the literal, and a backslash escapes. -/
def readTemplate : Option (List Char) → List Char → Option (List Segment)
  | none, [] => some []
  | none, '$' :: '\x7b' :: cs => readTemplate (some []) cs
  | none, c :: cs =>
    if c = '`' ∨ c = '\\' then none else (readTemplate none cs).map (.char c :: ·)
  | some _, [] => none
  | some name, '\x7d' :: cs => (readTemplate none cs).map (.placeholder name :: ·)
  | some name, c :: cs => readTemplate (some (name ++ [c])) cs

def dropSlash (segments : List Segment) : List Segment :=
  if segments.getLast? = some (.char '/') then segments.dropLast else segments

variable {segments : List Segment} {name rest : List Char}

theorem templateChars_append (a b : List Segment) :
    templateChars (a ++ b) = templateChars a ++ templateChars b := by
  induction a with
  | nil => rfl
  | cons x a ih => cases x <;> simp [templateChars, ih]

theorem names_append (a b : List Segment) : names (a ++ b) = names a ++ names b := by
  induction a with
  | nil => rfl
  | cons x a ih => cases x <;> simp [names, ih]

theorem mem_names_of_prefix {a b : List Segment} (h : a <+: b) (hname : name ∈ names a) :
    name ∈ names b := by
  obtain ⟨rest, rfl⟩ := h
  rw [names_append]
  exact List.mem_append_left _ hname

theorem names_map_char (cs : List Char) : names (cs.map .char) = [] := by
  induction cs with
  | nil => rfl
  | cons c cs ih => rw [List.map_cons, names, ih]

theorem fill_append (value : List Char → List Char) (a b : List Segment) :
    fill value (a ++ b) = fill value a ++ fill value b := by
  induction a with
  | nil => rfl
  | cons x a ih => cases x <;> simp [fill, ih]

theorem fill_congr {value other : List Char → List Char}
    (h : ∀ n ∈ names segments, value n = other n) : fill value segments = fill other segments := by
  induction segments with
  | nil => rfl
  | cons x segments ih =>
    cases x with
    | char c => exact congrArg (c :: ·) (ih h)
    | placeholder name =>
      rw [fill, fill, h name List.mem_cons_self,
        ih fun n hn => h n (List.mem_cons_of_mem name hn)]

theorem dropSlash_closing {front tail : List Segment} (h : tail = [] ∨ tail = [.char '/']) :
    dropSlash (front ++ Segment.char '/' :: .placeholder name :: tail) =
      front ++ [Segment.char '/', .placeholder name] := by
  rcases h with rfl | rfl
  · simp [dropSlash]
  · simp [dropSlash, List.dropLast_append_of_ne_nil]

theorem Segment.IsPlain.isDelimited {x : Segment} (h : x.IsPlain) : x.IsDelimited := by
  cases x with
  | char c =>
    have hbraces : ['\x7b', '\x7d'] ⊆ specials := by decide
    exact fun hc => h (hbraces hc)
  | placeholder name =>
    have hothers : ∀ c ∈ ['\x7b', '\x7d', '/'], Text.isWordChar c = false := by decide
    exact ⟨h.1, fun c hc => IsWord.not_mem h (hothers c hc)⟩

theorem expand_routeChars (h : ∀ x ∈ segments, x.IsDelimited) :
    Text.expand '\x7b' ['$', '\x7b'] (routeChars segments) = templateChars segments := by
  induction segments with
  | nil => rfl
  | cons x segments ih =>
    have hx := h x List.mem_cons_self
    have hrest := ih (List.forall_mem_of_forall_mem_cons h)
    cases x with
    | char c =>
      have hc : c ≠ '\x7b' := fun he => hx (he ▸ List.mem_cons_self)
      rw [routeChars, Text.expand_cons, if_neg hc, hrest]
      rfl
    | placeholder name =>
      rw [routeChars, Text.expand_cons, if_pos rfl,
        Text.expand_append_of_not_mem (hx.2 '\x7b' (by simp)), Text.expand_cons,
        if_neg (by decide), hrest]
      rfl

theorem interpolated_route (h : ∀ x ∈ segments, x.IsDelimited) :
    interpolated (String.ofList (routeChars segments)) =
      String.ofList (templateChars segments) := by
  rw [interpolated, String.toList_ofList, expand_routeChars h]

theorem readTemplate_name {done : List Char} (h : '\x7d' ∉ name) :
    readTemplate (some done) (name ++ '\x7d' :: rest) =
      (readTemplate none rest).map (.placeholder (done ++ name) :: ·) := by
  induction name generalizing done with
  | nil => simp [readTemplate]
  | cons c name ih =>
    rw [List.mem_cons, not_or] at h
    rw [List.cons_append, readTemplate, ih h.2]
    · simp
    · exact fun he => h.1 he.symm

theorem readTemplate_templateChars (h : ∀ x ∈ segments, x.IsPlain) :
    readTemplate none (templateChars segments) = some segments := by
  induction segments with
  | nil => rfl
  | cons x segments ih =>
    have hx := h x List.mem_cons_self
    have hrest := ih (List.forall_mem_of_forall_mem_cons h)
    cases x with
    | char c =>
      have hc : c ∉ specials := hx
      have hends : ¬ (c = '`' ∨ c = '\\') := by
        rintro (rfl | rfl) <;> exact hc (by decide)
      rw [templateChars, readTemplate, if_neg hends, hrest]
      · rfl
      · rintro cs rfl
        exact absurd (by decide) hc
    | placeholder name =>
      rw [templateChars, readTemplate, readTemplate_name (hx.isDelimited.2 '\x7d' (by simp)), hrest]
      rfl

theorem placeholderNames_routeChars (h : ∀ x ∈ segments, x.IsDelimited) :
    placeholderNames (routeChars segments) = (names segments).filter (IsWord ·) := by
  induction segments with
  | nil => rfl
  | cons x segments ih =>
    have hx := h x List.mem_cons_self
    have hrest := ih (List.forall_mem_of_forall_mem_cons h)
    cases x with
    | char c =>
      have hc : c ≠ '\x7b' := fun he => hx (he ▸ List.mem_cons_self)
      rw [routeChars, placeholderNames, if_neg hc, hrest]
      rfl
    | placeholder name =>
      have hskip : placeholderNames (name ++ '\x7d' :: routeChars segments) =
          (names segments).filter (IsWord ·) := by
        rw [placeholderNames_append (hx.2 '\x7b' (by simp)), placeholderNames,
          if_neg (by decide), hrest]
      rw [routeChars, placeholderNames, if_pos rfl, hskip, names]
      by_cases hword : IsWord name
      · rw [placeholderTail?_word hword, List.filter_cons_of_pos (by simpa using hword)]
      · rw [placeholderTail?_not_word (hx.2 '\x7d' (by simp)) hword,
          List.filter_cons_of_neg (by simpa using hword)]

theorem placeholders_route (h : ∀ x ∈ segments, x.IsDelimited) :
    placeholders (String.ofList (routeChars segments)) =
      ((names segments).filter (IsWord ·)).map String.ofList := by
  rw [placeholders, String.toList_ofList, placeholderNames_routeChars h]

theorem mem_placeholders_route (h : ∀ x ∈ segments, x.IsDelimited) (hname : name ∈ names segments) :
    String.ofList name ∈ placeholders (String.ofList (routeChars segments)) ↔ IsWord name := by
  rw [placeholders_route h, List.mem_map_of_injective fun _ _ => String.ofList_inj.mp,
    List.mem_filter]
  simp [hname]

theorem isWord_of_mem_names (h : ∀ x ∈ segments, x.IsPlain) : ∀ n ∈ names segments, IsWord n := by
  induction segments with
  | nil => exact List.forall_mem_nil _
  | cons x segments ih =>
    have hx := h x List.mem_cons_self
    have hrest := ih (List.forall_mem_of_forall_mem_cons h)
    cases x with
    | char c => exact hrest
    | placeholder name => exact List.forall_mem_cons.mpr ⟨hx, hrest⟩

theorem placeholders_plain (h : ∀ x ∈ segments, x.IsPlain) :
    placeholders (String.ofList (routeChars segments)) = (names segments).map String.ofList := by
  rw [placeholders_route fun x hx => (h x hx).isDelimited, List.filter_eq_self.mpr]
  simpa using isWord_of_mem_names h

theorem eq_cons_of_templateChars {c : Char} {cs : List Char} (hc : c ≠ '$')
    (h : templateChars segments = c :: cs) :
    ∃ tail, segments = .char c :: tail ∧ templateChars tail = cs := by
  cases segments with
  | nil => cases h
  | cons x tail =>
    cases x with
    | char d =>
      rw [templateChars, List.cons.injEq] at h
      exact ⟨tail, by rw [h.1], h.2⟩
    | placeholder name =>
      rw [templateChars, List.cons.injEq] at h
      exact absurd h.1.symm hc

theorem eq_map_of_templateChars {cs : List Char} (hc : '$' ∉ cs)
    (h : templateChars segments = cs) : segments = cs.map .char := by
  induction cs generalizing segments with
  | nil =>
    cases segments with
    | nil => rfl
    | cons x segments => cases x <;> cases h
  | cons c cs ih =>
    rw [List.mem_cons, not_or] at hc
    obtain ⟨tail, rfl, htail⟩ := eq_cons_of_templateChars (Ne.symm hc.1) h
    rw [List.map_cons, ih hc.2 htail]

theorem closingPlaceholder?_template (h : ∀ x ∈ segments, x.IsDelimited)
    (hc : closingPlaceholder? (templateChars segments) = some name) :
    ∃ ending ∈ endings, segments = .char '/' :: .placeholder name :: ending.map .char := by
  obtain ⟨ending, hending, he, hword⟩ := closingPlaceholder?_eq_some hc
  obtain ⟨tail, rfl, ht⟩ := eq_cons_of_templateChars (by decide) he
  have htail := List.forall_mem_of_forall_mem_cons h
  cases tail with
  | nil => cases ht
  | cons x tail =>
    have hx := htail x List.mem_cons_self
    have hrest := List.forall_mem_of_forall_mem_cons htail
    cases x with
    | char c =>
      -- the brace would have to be a character of its own
      rw [templateChars, List.cons.injEq] at ht
      obtain ⟨y, rfl, -⟩ := eq_cons_of_templateChars (by decide) ht.2
      exact absurd List.mem_cons_self (hrest _ List.mem_cons_self)
    | placeholder word =>
      have hends : ∀ e ∈ endings, '$' ∉ e := by decide
      simp only [templateChars, List.cons.injEq, true_and] at ht
      obtain ⟨rfl, hchars⟩ :=
        eq_of_append_cons (hx.2 '\x7d' (by simp)) (hword.not_mem (by decide)) ht
      exact ⟨ending, hending, by rw [eq_map_of_templateChars (hends ending hending) hchars]⟩

theorem cutClosing?_append {a : List Char} (h : '/' ∉ a) :
    cutClosing? (a ++ rest) = (cutClosing? rest).map fun (before, name) => (a ++ before, name) := by
  induction a with
  | nil => simp
  | cons c a ih =>
    rw [List.mem_cons, not_or] at h
    have hnone : closingPlaceholder? (c :: (a ++ rest)) = none := by
      rw [closingPlaceholder?]
      rintro cs he
      exact h.1 (List.cons.inj he).1.symm
    rw [List.cons_append, cutClosing?, hnone, ih h.2]
    simp [Function.comp_def]

theorem cutClosing?_template {before : List Char} (h : ∀ x ∈ segments, x.IsDelimited)
    (hc : cutClosing? (templateChars segments) = some (before, name)) :
    ∃ front, ∃ ending ∈ endings,
      segments = front ++ Segment.char '/' :: .placeholder name :: ending.map .char ∧
      before = templateChars front := by
  induction segments generalizing before with
  | nil => cases hc
  | cons x segments ih =>
    have hx := h x List.mem_cons_self
    have hrest := List.forall_mem_of_forall_mem_cons h
    cases x with
    | char c =>
      rw [templateChars, cutClosing?] at hc
      cases hcl : closingPlaceholder? (templateChars (.char c :: segments)) with
      | some closing =>
        obtain ⟨ending, hending, he⟩ := closingPlaceholder?_template h hcl
        rw [templateChars] at hcl
        rw [hcl] at hc
        cases hc
        exact ⟨[], ending, hending, he, rfl⟩
      | none =>
        rw [templateChars] at hcl
        rw [hcl] at hc
        obtain ⟨⟨before', name'⟩, hcut, he⟩ := Option.map_eq_some_iff.mp hc
        cases he
        obtain ⟨front, ending, hending, rfl, rfl⟩ := ih hrest hcut
        exact ⟨.char c :: front, ending, hending, rfl, rfl⟩
    -- no slash is in an interpolation, so that the cut is behind it
    | placeholder word =>
      have hslash : '/' ∉ '$' :: '\x7b' :: (word ++ ['\x7d']) := by
        simpa using hx.2 '/' (by simp)
      have hchars : templateChars (.placeholder word :: segments) =
          '$' :: '\x7b' :: (word ++ ['\x7d']) ++ templateChars segments := by
        simp [templateChars]
      rw [hchars, cutClosing?_append hslash] at hc
      obtain ⟨⟨before', name'⟩, hcut, he⟩ := Option.map_eq_some_iff.mp hc
      cases he
      obtain ⟨front, ending, hending, rfl, rfl⟩ := ih hrest hcut
      exact ⟨.placeholder word :: front, ending, hending, rfl, by simp [templateChars]⟩

theorem cutLast?_template {before cut : String} (h : ∀ x ∈ segments, x.IsDelimited)
    (hc : cutLast? (String.ofList (templateChars segments)) = some (before, cut)) :
    ∃ front name, ∃ ending ∈ endings,
      segments = front ++ Segment.char '/' :: .placeholder name :: ending.map .char ∧
      before = String.ofList (templateChars front) ∧ cut = String.ofList name := by
  rw [cutLast?, String.toList_ofList] at hc
  obtain ⟨⟨chars, name⟩, hcut, he⟩ := Option.map_eq_some_iff.mp hc
  cases he
  obtain ⟨front, ending, hending, he, rfl⟩ := cutClosing?_template h hcut
  exact ⟨front, name, ending, hending, he, rfl, rfl⟩

end ApiBindings.Naming
