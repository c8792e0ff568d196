import ApiBindings.Proofs.Naming.TypeName

/-!
Type names word by word. Main statement: a text of ASCII with a letter or a digit has a type name
that keeps all its letters and digits, and that is its own type name.
-/

namespace ApiBindings.Naming

/-- A word that stands before the rest of a text and ends where it has to: capitals before a
capitalized word, small letters with or without a capital before them, capitals that no letter
follows, or digits. -/
inductive IsWordBefore : List Char → List Char → Prop
  | acronym {word rest : List Char} {d e : Char} (hne : word ≠ [])
    (h : ∀ x ∈ word, x.isUpper = true) (hd : d.isUpper = true) (he : e.isLower = true) :
    IsWordBefore word (d :: e :: rest)
  | small {word rest : List Char} (hne : word ≠ []) (h : ∀ x ∈ word, x.isLower = true)
    (hrest : ∀ x ∈ rest.head?, ¬ x.isLower = true) : IsWordBefore word rest
  | capitalized {c : Char} {word rest : List Char} (hc : c.isUpper = true) (hne : word ≠ [])
    (h : ∀ x ∈ word, x.isLower = true) (hrest : ∀ x ∈ rest.head?, ¬ x.isLower = true) :
    IsWordBefore (c :: word) rest
  | capitals {word rest : List Char} (hne : word ≠ []) (h : ∀ x ∈ word, x.isUpper = true)
    (hrest : ∀ x ∈ rest.head?, ¬ x.isAlpha = true) : IsWordBefore word rest
  | number {word rest : List Char} (hne : word ≠ []) (h : ∀ x ∈ word, x.isDigit = true)
    (hrest : ∀ x ∈ rest.head?, ¬ x.isDigit = true) : IsWordBefore word rest

inductive AreWords : List (List Char) → Prop
  | nil : AreWords []
  | cons {word : List Char} {pieces : List (List Char)} (h : IsWordBefore word pieces.flatten)
    (hrest : AreWords pieces) : AreWords (word :: pieces)

variable {c d : Char} {s word rest : List Char} {pieces : List (List Char)}

theorem isAlpha_of_isUpper (h : c.isUpper = true) : c.isAlpha = true := by simp [Char.isAlpha, h]

theorem isAlpha_of_isLower (h : c.isLower = true) : c.isAlpha = true := by simp [Char.isAlpha, h]

theorem not_isDigit_of_isAlpha (h : c.isAlpha = true) : ¬ c.isDigit = true := by
  have hval : c.val.toNat = c.toNat := rfl
  simp [Char.isAlpha, Char.isUpper, Char.isLower, Char.isDigit, UInt32.le_iff_toNat_le] at h ⊢
  omega

section Joins

theorem joins_of_isDigit (hc : c.isDigit = true) : joins c (d :: s) = d.isDigit := by
  cases s <;> simp [joins, hc]

theorem joins_of_isLower (hc : c.isLower = true) : joins c (d :: s) = d.isLower := by
  have hdigit := not_isDigit_of_isAlpha (isAlpha_of_isLower hc)
  cases s <;> simp [joins, hc, hdigit]

theorem joins_of_isUpper (hc : c.isUpper = true) :
    joins c (d :: s) = (d.isLower || (d.isUpper && s.head?.all Char.isUpper)) := by
  have hdigit := not_isDigit_of_isAlpha (isAlpha_of_isUpper hc)
  have hlower := Char.not_isLower_of_isUpper hc
  cases s <;> simp [joins, hlower, hdigit, Char.isAlpha, Bool.or_comm]

end Joins

section Reading

theorem IsWordBefore.ne_nil (h : IsWordBefore word rest) : word ≠ [] := by
  cases h with
  | acronym hne | small hne | capitals hne | number hne => exact hne
  | capitalized => exact List.cons_ne_nil _ _

theorem IsWordBefore.of_isLower (h : IsWordBefore (d :: s) rest) (hd : d.isLower = true) :
    (∀ x ∈ d :: s, x.isLower = true) ∧ ∀ x ∈ rest.head?, ¬ x.isLower = true := by
  have hupper := Char.not_isUpper_of_isLower hd
  cases h with
  | small _ hall hrest => exact ⟨hall, hrest⟩
  | acronym _ hall | capitals _ hall => exact absurd (hall d List.mem_cons_self) hupper
  | capitalized hc => exact absurd hc hupper
  | number _ hall =>
    exact absurd (hall d List.mem_cons_self) (not_isDigit_of_isAlpha (isAlpha_of_isLower hd))

theorem IsWordBefore.of_isDigit (h : IsWordBefore (d :: s) rest) (hd : d.isDigit = true) :
    (∀ x ∈ d :: s, x.isDigit = true) ∧ ∀ x ∈ rest.head?, ¬ x.isDigit = true := by
  have halpha : ¬ d.isAlpha = true := fun ha => not_isDigit_of_isAlpha ha hd
  cases h with
  | number _ hall hrest => exact ⟨hall, hrest⟩
  | acronym _ hall | capitals _ hall =>
    exact absurd (isAlpha_of_isUpper (hall d List.mem_cons_self)) halpha
  | capitalized hc => exact absurd (isAlpha_of_isUpper hc) halpha
  | small _ hall => exact absurd (isAlpha_of_isLower (hall d List.mem_cons_self)) halpha

theorem IsWordBefore.cons_capital (hc : c.isUpper = true) (h : IsWordBefore (d :: s) rest) :
    if joins c (d :: s) then IsWordBefore (c :: d :: s) rest
    else IsWordBefore [c] (d :: s ++ rest) := by
  rw [joins_of_isUpper hc]
  have hjoined (hall : ∀ x ∈ d :: s, x.isUpper = true) :
      (d.isLower || (d.isUpper && s.head?.all Char.isUpper)) = true := by
    have hd := hall d List.mem_cons_self
    cases s with
    | nil => simp [hd]
    | cons e s => simp [hd, hall e (by simp)]
  cases h with
  | acronym _ hall hd he =>
    rw [if_pos (hjoined hall)]
    exact .acronym (List.cons_ne_nil _ _) (List.forall_mem_cons.mpr ⟨hc, hall⟩) hd he
  | capitals _ hall hrest =>
    rw [if_pos (hjoined hall)]
    exact .capitals (List.cons_ne_nil _ _) (List.forall_mem_cons.mpr ⟨hc, hall⟩) hrest
  | small _ hall hrest =>
    rw [if_pos (by simp [hall d List.mem_cons_self])]
    exact .capitalized hc (List.cons_ne_nil _ _) hall hrest
  | capitalized hd hne hall =>
    -- the capital of the word ends the run of capitals before it
    obtain ⟨e, s, rfl⟩ := List.exists_cons_of_ne_nil hne
    have he := hall e List.mem_cons_self
    have hlower := Char.not_isLower_of_isUpper hd
    have hupper := Char.not_isUpper_of_isLower he
    rw [if_neg (by simp [hlower, hupper])]
    exact .acronym (List.cons_ne_nil _ _) (List.forall_mem_singleton.mpr hc) hd he
  | number _ hall =>
    have halpha : ¬ d.isAlpha = true := fun ha =>
      not_isDigit_of_isAlpha ha (hall d List.mem_cons_self)
    rw [if_neg (by simp_all [Char.isAlpha])]
    exact .capitals (List.cons_ne_nil _ _) (List.forall_mem_singleton.mpr hc)
      (by simpa using halpha)

/-- A character before a word begins the word if it joins it, and is a word of its own otherwise. -/
theorem IsWordBefore.cons (hc : c.isAlphanum = true) (h : IsWordBefore word rest) :
    if joins c word then IsWordBefore (c :: word) rest else IsWordBefore [c] (word ++ rest) := by
  obtain ⟨d, s, rfl⟩ := List.exists_cons_of_ne_nil h.ne_nil
  simp only [Char.isAlphanum, Char.isAlpha, Bool.or_eq_true] at hc
  rcases hc with (hc | hc) | hc
  · exact h.cons_capital hc
  · rw [joins_of_isLower hc]
    split_ifs with hd
    · obtain ⟨hall, hrest⟩ := h.of_isLower hd
      exact .small (List.cons_ne_nil _ _) (List.forall_mem_cons.mpr ⟨hc, hall⟩) hrest
    · exact .small (List.cons_ne_nil _ _) (List.forall_mem_singleton.mpr hc) (by simpa using hd)
  · rw [joins_of_isDigit hc]
    split_ifs with hd
    · obtain ⟨hall, hrest⟩ := h.of_isDigit hd
      exact .number (List.cons_ne_nil _ _) (List.forall_mem_cons.mpr ⟨hc, hall⟩) hrest
    · exact .number (List.cons_ne_nil _ _) (List.forall_mem_singleton.mpr hc) (by simpa using hd)

theorem isWordBefore_singleton (hc : c.isAlphanum = true) : IsWordBefore [c] [] := by
  have hnone {P : Char → Prop} : ∀ x ∈ ([] : List Char).head?, P x := fun x hx => by simp at hx
  simp only [Char.isAlphanum, Char.isAlpha, Bool.or_eq_true] at hc
  rcases hc with (hc | hc) | hc
  · exact .capitals (List.cons_ne_nil _ _) (List.forall_mem_singleton.mpr hc) hnone
  · exact .small (List.cons_ne_nil _ _) (List.forall_mem_singleton.mpr hc) hnone
  · exact .number (List.cons_ne_nil _ _) (List.forall_mem_singleton.mpr hc) hnone

theorem areWords_words (h : ∀ c ∈ s, c.isAlphanum = true) : AreWords (words s) := by
  induction s with
  | nil => exact .nil
  | cons c s ih =>
    obtain ⟨hc, hs⟩ := List.forall_mem_cons.mp h
    rw [words]
    cases hwords : words s with
    | nil => exact .cons (isWordBefore_singleton hc) .nil
    | cons word pieces =>
      have hrest := ih hs
      rw [hwords] at hrest
      cases hrest with
      | cons hword hpieces =>
        have hcons := hword.cons hc
        dsimp only
        split_ifs with hjoins
        · rw [if_pos hjoins] at hcons
          exact .cons hcons hpieces
        · rw [if_neg hjoins] at hcons
          exact .cons hcons (.cons hword hpieces)

theorem AreWords.of_mem (h : AreWords pieces) (hword : word ∈ pieces) :
    ∃ rest, IsWordBefore word rest := by
  induction h with
  | nil => cases hword
  | cons hfirst _ ih =>
    rcases List.mem_cons.mp hword with rfl | hword
    · exact ⟨_, hfirst⟩
    · exact ih hword

end Reading

section Titled

structure IsTitled (s : List Char) : Prop where
  start : ∀ c ∈ s.head?, ¬ c.isLower = true
  behind : s.IsChain fun c d => d.isLower = true → c.isAlpha = true

theorem isTitled_append {t : List Char} (hs : IsTitled s) (ht : IsTitled t) :
    IsTitled (s ++ t) where
  start := by
    cases s with
    | nil => exact ht.start
    | cons c s => exact hs.start
  behind := hs.behind.append ht.behind fun _ _ d hd hlower => absurd hlower (ht.start d hd)

theorem isTitled_flatMap {f : List Char → List Char} (h : ∀ piece ∈ pieces, IsTitled (f piece)) :
    IsTitled (pieces.flatMap f) := by
  induction pieces with
  | nil => exact ⟨fun _ hc => by simp at hc, .nil⟩
  | cons piece pieces ih =>
    obtain ⟨hpiece, hpieces⟩ := List.forall_mem_cons.mp h
    rw [List.flatMap_cons]
    exact isTitled_append hpiece (ih hpieces)

theorem IsWordBefore.alike (h : IsWordBefore word rest) :
    (∀ c ∈ word, c.isAlpha = true) ∨ ∀ c ∈ word, c.isDigit = true := by
  cases h with
  | acronym _ hall | capitals _ hall => exact .inl fun c hc => isAlpha_of_isUpper (hall c hc)
  | small _ hall => exact .inl fun c hc => isAlpha_of_isLower (hall c hc)
  | capitalized hc _ hall =>
    exact .inl (List.forall_mem_cons.mpr
      ⟨isAlpha_of_isUpper hc, fun c hc => isAlpha_of_isLower (hall c hc)⟩)
  | number _ hall => exact .inr hall

theorem isTitled_capitalize (hascii : ∀ c ∈ word, c.toNat < 0x80) (h : IsWordBefore word rest) :
    IsTitled (capitalize word) := by
  obtain ⟨d, s, rfl⟩ := List.exists_cons_of_ne_nil h.ne_nil
  rw [capitalize, Text.upperChar_ascii (hascii d List.mem_cons_self), List.singleton_append]
  refine ⟨by simp, ?_⟩
  rcases h.alike with hall | hall
  · obtain ⟨hd, hs⟩ := List.forall_mem_cons.mp hall
    have halpha : ∀ c ∈ d.toUpper :: s, c.isAlpha = true :=
      List.forall_mem_cons.mpr ⟨by simpa using hd, hs⟩
    exact List.Pairwise.isChain (List.pairwise_of_forall_mem_list fun c hc _ _ _ => halpha c hc)
  · have hlower : ∀ c ∈ d.toUpper :: s, ¬ c.isLower = true := by
      refine List.forall_mem_cons.mpr ⟨by simp, fun c hc hlower => ?_⟩
      exact not_isDigit_of_isAlpha (isAlpha_of_isLower hlower) (hall c (List.mem_cons_of_mem d hc))
    exact List.Pairwise.isChain
      (List.pairwise_of_forall_mem_list fun _ _ c hc h => absurd h (hlower c hc))

theorem isAlphanum_of_mem_runs (h : ∀ c ∈ s, c.toNat < 0x80) {run : List Char}
    (hrun : run ∈ Text.runs Text.isLetterOrDigit s) : ∀ c ∈ run, c.isAlphanum = true := by
  intro c hc
  have hflat : c ∈ (Text.runs Text.isLetterOrDigit s).flatten := List.mem_flatten_of_mem hrun hc
  rw [Text.flatten_runs, List.mem_filter] at hflat
  rw [← Text.isLetterOrDigit_ascii (h c hflat.1)]
  exact hflat.2

theorem isTitled_pascalChars (h : ∀ c ∈ s, c.toNat < 0x80) : IsTitled (pascalChars s) := by
  refine isTitled_flatMap fun piece hpiece => ?_
  obtain ⟨run, hrun, hpiece⟩ := List.mem_flatMap.mp hpiece
  have hletters := isAlphanum_of_mem_runs h hrun
  have hascii : ∀ c ∈ run, c.toNat < 0x80 := fun c hc => Text.toNat_lt_of_isAlphanum (hletters c hc)
  rw [chunkPieces, if_pos (by simpa using hascii)] at hpiece
  obtain ⟨rest, hword⟩ := (areWords_words hletters).of_mem hpiece
  exact isTitled_capitalize (fun c hc => hascii c (mem_of_mem_words hpiece c hc)) hword

theorem joins_of_isAlpha (hc : c.isAlpha = true) (hd : d.isLower = true) :
    joins c (d :: s) = true := by
  rw [Char.isAlpha, Bool.or_eq_true] at hc
  rcases hc with hc | hc
  · simp [joins_of_isUpper hc, hd]
  · simp [joins_of_isLower hc, hd]

/-- Behind the first word, the words of a text whose small letters stand behind letters begin with
a capital or a digit. -/
theorem start_of_mem_tail_words
    (h : s.IsChain fun c d => d.isLower = true → c.isAlpha = true) :
    ∀ word ∈ (words s).tail, ∀ c ∈ word.head?, ¬ c.isLower = true := by
  induction s with
  | nil => exact fun word hword => by cases hword
  | cons c s ih =>
    have htail := ih h.tail
    have hflat := flatten_words s
    rw [words]
    cases hwords : words s with
    | nil => exact fun word hword => by cases hword
    | cons word pieces =>
      rw [hwords] at htail hflat
      dsimp only
      split_ifs with hjoins
      · exact htail
      · refine List.forall_mem_cons.mpr ⟨fun d hd hlower => hjoins ?_, htail⟩
        obtain ⟨word, rfl⟩ := List.head?_eq_some_iff.mp hd
        refine joins_of_isAlpha (h.rel_head? ?_ hlower) hlower
        rw [← hflat]
        rfl

theorem start_of_mem_words (h : IsTitled s) :
    ∀ word ∈ words s, ∀ c ∈ word.head?, ¬ c.isLower = true := by
  have htail := start_of_mem_tail_words h.behind
  have hflat := flatten_words s
  cases hwords : words s with
  | nil => exact fun word hword => by cases hword
  | cons word pieces =>
    rw [hwords] at htail hflat
    refine List.forall_mem_cons.mpr ⟨fun c hc => h.start c ?_, htail⟩
    rw [← hflat, List.flatten_cons, List.head?_append, hc]
    rfl

theorem capitalize_of_start (hascii : ∀ c ∈ word, c.toNat < 0x80)
    (h : ∀ c ∈ word.head?, ¬ c.isLower = true) : capitalize word = word := by
  cases word with
  | nil => rfl
  | cons c word =>
    rw [capitalize, Text.upperChar_ascii (hascii c List.mem_cons_self),
      Char.toUpper_eq_of_not_isLower (h c rfl), List.singleton_append]

theorem flatMap_capitalize_words (hascii : ∀ c ∈ s, c.toNat < 0x80) (h : IsTitled s) :
    (words s).flatMap capitalize = s := by
  have hsame : ∀ word ∈ words s, capitalize word = word := fun word hword =>
    capitalize_of_start (fun c hc => hascii c (mem_of_mem_words hword c hc))
      (start_of_mem_words h word hword)
  rw [List.flatMap_congr hsame, List.flatMap_id', flatten_words]

end Titled

section Again

theorem runs_guardDigit (hne : s ≠ []) (h : ∀ c ∈ s, c.isAlphanum = true) :
    Text.runs Text.isLetterOrDigit (guardDigit s) = [s] := by
  have hkept : ∀ c ∈ s, Text.isLetterOrDigit c = true := by
    intro c hc
    rw [Text.isLetterOrDigit_ascii (Text.toNat_lt_of_isAlphanum (h c hc))]
    exact h c hc
  obtain ⟨c, s, rfl⟩ := List.exists_cons_of_ne_nil hne
  rw [guardDigit]
  split_ifs
  · rw [Text.runs_cons (by decide), Text.runs_eq_singleton hne hkept]
  · exact Text.runs_eq_singleton hne hkept

theorem pascalChars_guardDigit (hne : s ≠ []) (h : ∀ c ∈ s, c.isAlphanum = true)
    (htitled : IsTitled s) : pascalChars (guardDigit s) = s := by
  have hascii : ∀ c ∈ s, c.toNat < 0x80 := fun c hc => Text.toNat_lt_of_isAlphanum (h c hc)
  rw [pascalChars, runs_guardDigit hne h, List.flatMap_singleton, chunkPieces,
    if_pos (by simpa using hascii), flatMap_capitalize_words hascii htitled]

def withoutGuard : List Char → List Char
  | '_' :: c :: cs => if c.isDigit then c :: cs else '_' :: c :: cs
  | cs => cs

theorem withoutGuard_guardDigit (h : ∀ c ∈ s, c.isAlphanum = true) :
    withoutGuard (guardDigit s) = s := by
  cases s with
  | nil => rfl
  | cons c s =>
    have hc := h c List.mem_cons_self
    rw [guardDigit, Text.isDigit_ascii (Text.toNat_lt_of_isAlphanum hc)]
    split_ifs with hdigit
    · rw [withoutGuard, if_pos hdigit]
    · unfold withoutGuard
      split
      · rename_i heq
        cases heq
        exact absurd hc (by decide)
      · rfl

/-- A text of ASCII has a type name as soon as a letter or a digit is in it. The name keeps them all
in order, up to case, and is its own type name. -/
theorem pascalCase_keeps_letters {text : String} (hascii : ∀ c ∈ text.toList, c.toNat < 0x80)
    (hletter : ∃ c ∈ text.toList, c.isAlphanum = true) :
    ∃ name, pascalCase text = .ok name ∧
      (withoutGuard name.toList).map Char.toLower =
        (text.toList.filter Char.isAlphanum).map Char.toLower ∧
      pascalCase name = .ok name := by
  have hne := pascalChars_ne_nil hascii hletter
  have hletters := isAlphanum_of_mem_pascalChars hascii
  have hagain : pascalChars (guardDigit (pascalChars text.toList)) = pascalChars text.toList :=
    pascalChars_guardDigit hne hletters (isTitled_pascalChars hascii)
  refine ⟨_, pascalCase_eq_ok hne, ?_, ?_⟩
  · rw [String.toList_ofList, withoutGuard_guardDigit hletters, lower_pascalChars hascii]
  · rw [pascalCase_eq_ok (by rwa [String.toList_ofList, hagain]), String.toList_ofList, hagain]

theorem pascalCase_keeps_letters_errorCode :
    (∀ c ∈ "2fa-HTTPError_x_y9".toList, c.toNat < 0x80) ∧
    (∃ c ∈ "2fa-HTTPError_x_y9".toList, c.isAlphanum = true) ∧
    pascalCase "2fa-HTTPError_x_y9" = .ok "_2FaHTTPErrorXY9" ∧
    ∃ name, pascalCase "2fa-HTTPError_x_y9" = .ok name ∧
      (withoutGuard name.toList).map Char.toLower =
        ("2fa-HTTPError_x_y9".toList.filter Char.isAlphanum).map Char.toLower ∧
      pascalCase name = .ok name :=
  ⟨by decide, by decide, by decide, pascalCase_keeps_letters (by decide) (by decide)⟩

end Again

end ApiBindings.Naming
