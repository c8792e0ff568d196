import ApiBindings.Proofs.Success
import ApiBindings.Proofs.Text.Pieces
import ApiBindings.Toml.Quoted

/-!
Quoted texts with the short escapes only. Main statement: such a text between double quotes is read
as what it means, unless it begins like a text of several lines.
-/

namespace ApiBindings.Toml

def shortEscapes : List (Char × Char) :=
  [('n', '\n'), ('r', '\r'), ('t', '\t'), ('"', '"'), ('\\', '\\')]

variable {isPlain : Char → Prop} {s t begun : List Char} {c x : Char}

/-- The first text writes the second one: plain characters as they are, others escaped. -/
inductive Writes (isPlain : Char → Prop) : List Char → List Char → Prop
  | nil : Writes isPlain [] []
  | plain {c : Char} {s t : List Char} : isPlain c → c ≠ '\\' → Writes isPlain s t →
    Writes isPlain (c :: s) (c :: t)
  | escape {x c : Char} {s t : List Char} : (x, c) ∈ shortEscapes → Writes isPlain s t →
    Writes isPlain ('\\' :: x :: s) (c :: t)

namespace Writes

theorem mono {isPlain' : Char → Prop} (h : Writes isPlain s t)
    (hplain : ∀ c, isPlain c → isPlain' c) : Writes isPlain' s t := by
  induction h with
  | nil => exact .nil
  | plain hc hslash _ ih => exact .plain (hplain _ hc) hslash ih
  | escape hx _ ih => exact .escape hx ih

theorem append {s' t' : List Char} (h : Writes isPlain s t) (h' : Writes isPlain s' t') :
    Writes isPlain (s ++ s') (t ++ t') := by
  induction h with
  | nil => exact h'
  | plain hc hslash _ ih => exact .plain hc hslash ih
  | escape hx _ ih => exact .escape hx ih

theorem quoted (h : Writes isPlain s t) :
    Writes (fun _ => True) ('"' :: (s ++ ['"'])) ('"' :: (t ++ ['"'])) :=
  .plain trivial (by decide)
    ((h.mono fun _ _ => trivial).append (.plain trivial (by decide) .nil))

end Writes

section Escaped

theorem endsEscaped_cons (c : Char) (backwards : List Char) :
    Text.endsEscaped (c :: backwards) = (c == '\\' && !Text.endsEscaped backwards) := by
  rw [Text.endsEscaped, Text.endsEscaped, List.takeWhile_cons]
  by_cases hc : c = '\\'
  · subst hc
    simp only [beq_self_eq_true, if_true, List.length_cons, Bool.true_and]
    rcases Nat.mod_two_eq_zero_or_one (backwards.takeWhile (· == '\\')).length with h | h <;>
      simp [Nat.add_mod, h]
  · simp [hc]

/-- What is left of a written text behind its beginning, which is given backwards and may end
within an escape. -/
def Continues (begun s t : List Char) : Prop :=
  Writes (fun _ => True) (if Text.endsEscaped begun then '\\' :: s else s) t

theorem continues_start (h : Writes isPlain s t) : Continues [] s t := h.mono fun _ _ => trivial

theorem Continues.step (h : Continues begun (c :: s) t) :
    Continues (c :: begun) s t ∨ ∃ d t', t = d :: t' ∧ Continues (c :: begun) s t' := by
  rw [Continues] at h
  by_cases hbegun : Text.endsEscaped begun = true
  · rw [if_pos hbegun] at h
    cases h with
    | plain _ hslash => exact absurd rfl hslash
    | escape hx h =>
      refine .inr ⟨_, _, rfl, ?_⟩
      rwa [Continues, endsEscaped_cons, hbegun, if_neg (by simp)]
  · rw [if_neg hbegun] at h
    cases h with
    | plain _ hslash h =>
      refine .inr ⟨_, _, rfl, ?_⟩
      rwa [Continues, endsEscaped_cons, if_neg (by simp [hslash])]
    | escape hx h =>
      left
      rw [Continues, endsEscaped_cons, if_pos (by simp [hbegun])]
      exact .escape hx h

end Escaped

section Codes

theorem Continues.behind_mark {m : Char} (hm : ∀ c, (m, c) ∉ shortEscapes)
    (h : Continues begun ('\\' :: m :: s) t) :
    Text.endsEscaped begun = true ∧ ∃ t', t = '\\' :: m :: t' ∧ Continues [] s t' := by
  have hslash : m ≠ '\\' := fun h => hm '\\' (by simp [h, shortEscapes])
  rw [Continues] at h
  by_cases hbegun : Text.endsEscaped begun = true
  · rw [if_pos hbegun] at h
    cases h with
    | plain _ hne => exact absurd rfl hne
    | escape hx h =>
      have hc : ∀ c, ('\\', c) ∈ shortEscapes → c = '\\' := by simp [shortEscapes]
      obtain rfl := hc _ hx
      cases h with
      | plain _ _ h => exact ⟨hbegun, _, rfl, h⟩
      | escape => exact absurd rfl hslash
  · rw [if_neg hbegun] at h
    cases h with
    | plain _ hne => exact absurd rfl hne
    | escape hx => exact absurd hx (hm _)

/-- A mark of code points stands in a written text only behind an escaped backslash. -/
theorem endsEscaped_of_mem_splitOnFrom {m : Char} (hm : ∀ c, (m, c) ∉ shortEscapes)
    (h : Continues begun s t) :
    ∀ piece ∈ (Text.splitOnFrom ['\\', m] begun s).dropLast,
      Text.endsEscaped piece.reverse = true := by
  -- The scan stops between and within escapes, and `Continues` holds at both kinds of stops.
  fun_induction Text.splitOnFrom ['\\', m] begun s generalizing t with
  | case1 => simp
  | case2 _ _ _ hempty => simp at hempty
  | case3 begun c s _ rest hrest ih =>
    rw [Text.after?_eq_some_iff] at hrest
    rw [hrest] at h
    obtain ⟨hbegun, t', -, h⟩ := h.behind_mark hm
    rw [List.dropLast_cons_of_ne_nil (Text.splitOnFrom_ne_nil _ _ _)]
    exact List.forall_mem_cons.mpr ⟨by rwa [List.reverse_reverse], ih h⟩
  | case4 begun c s _ _ ih =>
    obtain hstep | ⟨_, _, -, hstep⟩ := h.step <;> exact ih hstep

theorem splitOnFrom_of_continues {m : Char} (hm : ∀ c, (m, c) ∉ shortEscapes)
    (h : Continues begun s t) (ht : Text.occursIn ['\\', m] t = false) :
    Text.splitOnFrom ['\\', m] begun s = [begun.reverse ++ s] := by
  fun_induction Text.splitOnFrom ['\\', m] begun s generalizing t with
  | case1 => simp
  | case2 _ _ _ hempty => simp at hempty
  | case3 begun c s _ rest hrest ih =>
    rw [Text.after?_eq_some_iff] at hrest
    rw [hrest] at h
    obtain ⟨-, t', rfl, -⟩ := h.behind_mark hm
    simp [Text.occursIn, Text.after?] at ht
  | case4 begun c s _ _ ih =>
    obtain hstep | ⟨d, t', rfl, hstep⟩ := h.step
    · rw [ih hstep ht, List.reverse_cons, List.append_assoc, List.singleton_append]
    · rw [Text.occursIn, Bool.or_eq_false_iff] at ht
      rw [ih hstep ht.2, List.reverse_cons, List.append_assoc, List.singleton_append]

theorem resolveCodes_glue {mark : List Char} {width : Nat} {pieces : List (List Char)}
    (hpieces : pieces ≠ [])
    (h : ∀ piece ∈ pieces.dropLast, Text.endsEscaped piece.reverse = true) :
    resolveCodes mark width true pieces = .ok (mark ++ Text.glue mark pieces) := by
  induction pieces with
  | nil => exact absurd rfl hpieces
  | cons piece rest ih =>
    cases rest with
    | nil => simp [resolveCodes, Text.glue, bind, Except.bind, pure, Except.pure]
    | cons next rest =>
      have hpiece := h piece (by simp)
      have hrest := ih (List.cons_ne_nil _ _) fun p hp => h p (by simp [hp])
      rw [resolveCodes, if_pos rfl, hpiece, hrest, Text.glue_cons _ _ (List.cons_ne_nil _ _)]
      simp [bind, Except.bind, pure, Except.pure]

theorem withCodes_of_writes {m : Char} (hm : ∀ c, (m, c) ∉ shortEscapes) (h : Writes isPlain s t)
    (width : Nat) : withCodes m width s = .ok s := by
  have hpieces := endsEscaped_of_mem_splitOnFrom hm (continues_start h)
  have hglue := Text.glue_splitOn ['\\', m] s
  rw [← Text.splitOn] at hpieces
  rw [withCodes]
  split
  · rfl
  · rename_i head rest hsplit
    rw [hsplit] at hpieces hglue
    cases rest with
    | nil =>
      rw [Text.glue] at hglue
      simp [resolveCodes, hglue, bind, Except.bind, pure, Except.pure]
    | cons next rest =>
      rw [List.dropLast_cons_of_ne_nil (List.cons_ne_nil _ _), List.forall_mem_cons] at hpieces
      rw [hpieces.1, resolveCodes_glue (List.cons_ne_nil _ _) hpieces.2]
      rw [Text.glue_cons _ _ (List.cons_ne_nil _ _)] at hglue
      rw [← hglue]
      simp [bind, Except.bind, pure, Except.pure]

end Codes

section Unescape

theorem lookup_shortEscapes (h : (x, c) ∈ shortEscapes) (hx : x ≠ '\\') :
    escapes.lookup x = some c := by
  revert h hx
  simp only [shortEscapes, List.mem_cons, Prod.mk.injEq, List.not_mem_nil, or_false]
  rintro (⟨rfl, rfl⟩ | ⟨rfl, rfl⟩ | ⟨rfl, rfl⟩ | ⟨rfl, rfl⟩ | ⟨rfl, rfl⟩) hx
  all_goals first | rfl | exact absurd rfl hx

theorem unescape_of_writes (h : Writes isPlain s t) : unescape s = .ok t := by
  induction h with
  | nil => rfl
  | plain _ hslash _ ih =>
    rw [unescape, ih]
    · rfl
    · simp_all
    · simp_all
  | @escape x c s t hx _ ih =>
    rw [unescape]
    by_cases hslash : x = '\\'
    · subst hslash
      have hc : c = '\\' := by simpa [shortEscapes] using hx
      rw [hc, ih]
      rfl
    · rw [lookup_shortEscapes hx hslash, ih]
      rfl

theorem hasUnknownEscape_meant (piece : List Char) (rest : List (List Char)) :
    hasUnknownEscape true (piece :: rest) = hasUnknownEscape false rest := by
  cases piece <;> simp [hasUnknownEscape]

theorem hasUnknownEscape_of_writes (h : Writes isPlain s t) (begun : List Char) :
    hasUnknownEscape false ((Text.splitOnFrom ['\\'] begun s).drop 1) = false := by
  induction h generalizing begun with
  | nil => simp [Text.splitOnFrom, hasUnknownEscape]
  | plain _ hslash _ ih =>
    rw [Text.splitOnFrom_of_ne hslash]
    exact ih _
  | @escape x c s t hx _ ih =>
    have hsplit : Text.splitOnFrom ['\\'] begun ('\\' :: x :: s) = begun.reverse :: _ :=
      Text.splitOnFrom_match (List.cons_ne_nil _ _) begun (x :: s)
    rw [hsplit, List.drop_one, List.tail_cons]
    by_cases hslash : x = '\\'
    · subst hslash
      -- The empty piece between the two backslashes lets anything follow.
      obtain ⟨more, rest, hrest⟩ := Text.splitOnFrom_cons ['\\'] [] s
      have hnone := ih []
      have hsplit : Text.splitOnFrom ['\\'] [] ('\\' :: s) = [] :: _ :=
        Text.splitOnFrom_match (List.cons_ne_nil _ _) [] s
      rw [hrest, List.drop_one, List.tail_cons] at hnone
      rw [hsplit, hasUnknownEscape, hrest, Bool.not_false, hasUnknownEscape_meant, hnone]
    · obtain ⟨more, rest, hrest⟩ := Text.splitOnFrom_cons ['\\'] [x] s
      have hnone := ih [x]
      rw [hrest, List.drop_one, List.tail_cons] at hnone
      rw [Text.splitOnFrom_of_ne hslash, hrest]
      simp [hasUnknownEscape, lookup_shortEscapes hx hslash, hnone]

theorem resolve_of_writes (h : Writes isPlain s t) : resolve s = .ok t := by
  have hunknown := hasUnknownEscape_of_writes h []
  have hshort (width : Nat) := withCodes_of_writes (m := 'u') (by simp [shortEscapes]) h width
  have hlong (width : Nat) := withCodes_of_writes (m := 'U') (by simp [shortEscapes]) h width
  rw [← Text.splitOn] at hunknown
  rw [resolve, hunknown, hshort]
  simp [bind, Except.bind, hlong, unescape_of_writes h]

end Unescape

section Quoted

theorem hasMoreBehind_of_writes (h : Writes (· ≠ '"') s t)
    (hbegun : Text.endsEscaped begun = false) :
    hasMoreBehind false false 0 (Text.splitOnFrom ['"'] begun (s ++ ['"'])) = false := by
  induction h generalizing begun with
  | nil =>
    have hsplit : Text.splitOnFrom ['"'] begun ['"'] = [begun.reverse, []] :=
      (Text.splitOnFrom_match (List.cons_ne_nil _ _) begun []).trans (by simp [Text.splitOnFrom])
    rw [List.nil_append, hsplit]
    simp [hasMoreBehind, hbegun]
  | @plain c s t hc hslash _ ih =>
    rw [List.cons_append, Text.splitOnFrom_of_ne hc]
    exact ih (by simp [endsEscaped_cons, hslash])
  | @escape x c s t hx _ ih =>
    rw [List.cons_append, Text.splitOnFrom_of_ne (by decide), List.cons_append]
    by_cases hquote : x = '"'
    · subst hquote
      have hsplit : Text.splitOnFrom ['"'] ('\\' :: begun) ('"' :: (s ++ ['"'])) =
          ('\\' :: begun).reverse :: _ :=
        Text.splitOnFrom_match (List.cons_ne_nil _ _) _ _
      rw [hsplit, hasMoreBehind, List.reverse_reverse, endsEscaped_cons, hbegun]
      simpa using ih rfl
    · rw [Text.splitOnFrom_of_ne hquote]
      exact ih (by simp [endsEscaped_cons, hbegun])

theorem isFollowed_of_writes (h : Writes (· ≠ '"') s t) :
    isFollowed '"' (s ++ ['"']) = false := by
  have hmore : hasMoreBehind false false 0 (Text.splitOnFrom ['"'] [] (s ++ ['"'])) = false :=
    hasMoreBehind_of_writes h rfl
  -- Only the empty text begins with a piece that is empty.
  have hfirst (c : Char) (s : List Char) (hc : c ≠ '"') :
      ∃ more rest, Text.splitOn ['"'] (c :: s) = (c :: more) :: rest := by
    rw [Text.splitOn, Text.splitOnFrom_of_ne hc]
    exact Text.splitOnFrom_cons ['"'] [c] s
  rw [← Text.splitOn] at hmore
  rw [isFollowed]
  cases h with
  | nil =>
    rw [Text.splitOn_append List.not_mem_nil, Text.splitOn_of_not_mem List.not_mem_nil]
    rfl
  | plain hc =>
    obtain ⟨more, rest, hsplit⟩ := hfirst _ _ hc
    rw [List.cons_append, hsplit] at hmore ⊢
    exact hmore
  | escape hx =>
    obtain ⟨more, rest, hsplit⟩ := hfirst '\\' _ (by decide)
    rw [List.cons_append, hsplit] at hmore ⊢
    exact hmore

/-- Between its quotes the text looks like one of several lines, or like an empty one of them. -/
def OpensLong (t : List Char) : Prop :=
  t.head? = some '"' ∧ (t.tail = [] ∨ t.tail.head? = some '"')

instance (t : List Char) : Decidable (OpensLong t) := inferInstanceAs (Decidable (_ ∧ _))

theorem withoutQuotes_of_not_opensLong (h : ¬ OpensLong t) :
    withoutQuotes '"' ('"' :: (t ++ ['"'])) = t := by
  cases t with
  | nil => rfl
  | cons c t =>
    have hends : ¬ (c = '"' ∧ (t ++ ['"'] = [] ∨ (t ++ ['"']).head? = some '"')) := by
      rintro ⟨rfl, htail⟩
      refine h ⟨rfl, ?_⟩
      cases t with
      | nil => exact .inl rfl
      | cons d t => exact .inr (by simpa using htail)
    rw [List.cons_append, withoutQuotes, if_neg hends, inner, List.drop_one, List.tail_cons,
      ← List.cons_append, List.dropLast_concat]

theorem readQuoted_of_writes (h : Writes (· ≠ '"') s t) (ht : ¬ OpensLong t) :
    readQuoted '"' ('"' :: (s ++ ['"'])) = .ok (String.ofList t) := by
  rw [readQuoted, List.drop_one, List.tail_cons, isFollowed_of_writes h, if_pos rfl,
    resolve_of_writes h.quoted]
  simp [bind, Except.bind, pure, Except.pure, withoutQuotes_of_not_opensLong ht]

-- A text that is one quote opens like one of several lines, and is lost.
example : readQuoted '"' ['"', '\\', '"', '"'] = .ok "" := by decide +kernel

end Quoted

end ApiBindings.Toml
