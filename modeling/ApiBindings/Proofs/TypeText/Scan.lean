import ApiBindings.Proofs.TypeText.Token

/-!
A type text as its words, literals and marks. Main statement: texts put together scan as their
lexemes put together, as long as no name or number runs on into the text behind it.
-/

namespace ApiBindings.TypeText

def scan : List Char → Option (List Token)
  | [] => some []
  | c :: cs =>
    if isBlank c then scan cs
    else if isMark c then (scan cs).map (.mark c :: ·)
    else if c = '"' then
      match _h : quotedBody cs with
      | some (body, after) => (scan after).map (.string body :: ·)
      | none => none
    else if isNameStart c then
      (scan (cs.dropWhile isNamePart)).map
        (.word (String.ofList (c :: cs.takeWhile isNamePart)) :: ·)
    else if isInteger (c :: cs.takeWhile Text.isDecimalDigit) then
      (scan (cs.dropWhile Text.isDecimalDigit)).map
        (.number (String.ofList (c :: cs.takeWhile Text.isDecimalDigit)) :: ·)
    else none
termination_by cs => cs.length
decreasing_by
  · simp
  · simp
  · have := quotedBody_length ‹_›
    simp only [List.length_cons]
    omega
  · exact Nat.lt_succ_of_le (List.dropWhile_sublist _).length_le
  · exact Nat.lt_succ_of_le (List.dropWhile_sublist _).length_le

/-- No name or number runs on into the text. -/
def Ends (rest : List Char) : Prop := ∀ c ∈ rest.head?, isNamePart c = false

theorem takeWhile_append_ends {p : Char → Bool} {cs rest : List Char}
    (hp : ∀ c, p c = true → isNamePart c = true) (hcs : ∀ c ∈ cs, p c = true) (hr : Ends rest) :
    (cs ++ rest).takeWhile p = cs ∧ (cs ++ rest).dropWhile p = rest := by
  rw [List.takeWhile_append_of_pos hcs, List.dropWhile_append_of_pos hcs]
  cases rest with
  | nil => simp
  | cons c rest =>
    have hc : p c = false := by
      have := hr c rfl
      grind
    simp [hc]

theorem scan_blank {c : Char} {cs : List Char} (h : isBlank c = true) :
    scan (c :: cs) = scan cs := by
  rw [scan, if_pos h]

theorem scan_mark {c : Char} {cs : List Char} (h : isMark c = true) :
    scan (c :: cs) = (scan cs).map (.mark c :: ·) := by
  rw [scan, if_neg (by simp [isBlank_of_isMark h]), if_pos h]

theorem scan_string {cs body after : List Char} (h : quotedBody cs = some (body, after)) :
    scan ('"' :: cs) = (scan after).map (.string body :: ·) := by
  rw [scan, if_neg (by decide), if_neg (by decide), if_pos rfl]
  split
  · rename_i he
    cases h.symm.trans he
    rfl
  · rename_i he
    cases h.symm.trans he

theorem scan_name {name rest : List Char} (h : isName name = true) (hr : Ends rest) :
    scan (name ++ rest) = (scan rest).map (.word (String.ofList name) :: ·) := by
  cases name with
  | nil => cases h
  | cons c cs =>
    rw [isName, Bool.and_eq_true, List.all_eq_true] at h
    obtain ⟨hc, hcs⟩ := h
    have hpart : isNamePart c = true := by
      rw [isNameStart, Bool.and_eq_true] at hc
      exact hc.1
    obtain ⟨hb, hm, hq⟩ := not_special_of_isNamePart hpart
    obtain ⟨ht, hd⟩ := takeWhile_append_ends (fun _ h => h) hcs hr
    rw [List.cons_append, scan, if_neg (by simp [hb]), if_neg (by simp [hm]), if_neg hq, if_pos hc,
      ht, hd]

theorem scan_integer {ds rest : List Char} (h : isInteger ds = true) (hr : Ends rest) :
    scan (ds ++ rest) = (scan rest).map (.number (String.ofList ds) :: ·) := by
  cases ds with
  | nil => cases h
  | cons c cs =>
    obtain ⟨hc, hcs⟩ := digits_of_isInteger h
    obtain ⟨ht, hd⟩ := takeWhile_append_ends (fun _ => isNamePart_of_isDecimalDigit) hcs hr
    have hspecial : isBlank c = false ∧ isMark c = false ∧ c ≠ '"' ∧ isNameStart c = false := by
      rcases hc with rfl | hc
      · decide
      · obtain ⟨hb, hm, hq⟩ := not_special_of_isNamePart (isNamePart_of_isDecimalDigit hc)
        exact ⟨hb, hm, hq, by simp [isNameStart, hc]⟩
    obtain ⟨hb, hm, hq, hs⟩ := hspecial
    rw [List.cons_append, scan, if_neg (by simp [hb]), if_neg (by simp [hm]), if_neg hq,
      if_neg (by simp [hs]), ht, hd, if_pos h]

/-- In front of a text that ends a name, the text scans as the lexemes. -/
def Scans (text : String) (lexemes : List Token) : Prop :=
  ∀ rest, Ends rest → scan (text.toList ++ rest) = (scan rest).map (lexemes ++ ·)

def Closed (text : String) (lexemes : List Token) : Prop :=
  ∀ rest, scan (text.toList ++ rest) = (scan rest).map (lexemes ++ ·)

structure Divides (text : String) (lexemes : List Token) : Prop where
  closed : Closed text lexemes
  ends : ∀ rest, Ends (text.toList ++ rest)

theorem Closed.scans {text : String} {lexemes : List Token} (h : Closed text lexemes) :
    Scans text lexemes :=
  fun rest _ => h rest

theorem Closed.append {s t : String} {l m : List Token} (hs : Closed s l) (ht : Closed t m) :
    Closed (s ++ t) (l ++ m) := by
  intro rest
  rw [String.toList_append, List.append_assoc, hs, ht]
  simp [Function.comp_def]

theorem Closed.append_scans {s t : String} {l m : List Token} (hs : Closed s l)
    (ht : Scans t m) : Scans (s ++ t) (l ++ m) := by
  intro rest hr
  rw [String.toList_append, List.append_assoc, hs, ht rest hr]
  simp [Function.comp_def]

theorem Scans.append_divides {s t : String} {l m : List Token} (hs : Scans s l)
    (ht : Divides t m) : Closed (s ++ t) (l ++ m) := by
  intro rest
  rw [String.toList_append, List.append_assoc, hs _ (ht.ends rest), ht.closed]
  simp [Function.comp_def]

theorem Scans.word (name : String) (h : isName name.toList = true) : Scans name [.word name] := by
  intro rest hr
  rw [scan_name h hr, String.ofList_toList]
  rfl

theorem Scans.number {ds : String} (h : isInteger ds.toList = true) : Scans ds [.number ds] := by
  intro rest hr
  rw [scan_integer h hr, String.ofList_toList]
  rfl

theorem Closed.quote (s : String) :
    Closed (Text.quote s) [.string (s.toList.flatMap Text.quotedChar)] := by
  intro rest
  rw [Text.quote_toList, Text.quotedChars, List.append_assoc, List.cons_append,
    List.singleton_append, scan_string (quotedBody_flatMap _ _)]
  rfl

def isPunctuation (text : String) : Bool :=
  text != "" && text.toList.all fun c => isBlank c || isMark c

def punctuation (text : String) : List Token := (text.toList.filter isMark).map .mark

theorem scan_punctuation {cs rest : List Char} (h : ∀ c ∈ cs, isBlank c = true ∨ isMark c = true) :
    scan (cs ++ rest) = (scan rest).map ((cs.filter isMark).map .mark ++ ·) := by
  induction cs with
  | nil => simp
  | cons c cs ih =>
    have hcs := ih fun d hd => h d (List.mem_cons_of_mem c hd)
    by_cases hm : isMark c = true
    · rw [List.cons_append, scan_mark hm, hcs, List.filter_cons_of_pos hm]
      simp [Function.comp_def]
    · have hb : isBlank c = true := (h c List.mem_cons_self).resolve_right hm
      rw [List.cons_append, scan_blank hb, hcs, List.filter_cons_of_neg hm]

theorem divides_punctuation (text : String) (h : isPunctuation text = true) :
    Divides text (punctuation text) := by
  rw [isPunctuation, Bool.and_eq_true, bne_iff_ne, List.all_eq_true] at h
  obtain ⟨hne, hall⟩ := h
  have hall : ∀ c ∈ text.toList, isBlank c = true ∨ isMark c = true :=
    fun c hc => by simpa using hall c hc
  refine ⟨fun rest => scan_punctuation hall, ?_⟩
  intro rest c hc
  cases hs : text.toList with
  | nil => exact absurd (String.toList_eq_nil_iff.mp hs) hne
  | cons d ds =>
    have hd : d = c := by simpa [hs] using hc
    subst hd
    refine Bool.eq_false_iff.mpr fun hp => ?_
    obtain ⟨hb, hm, -⟩ := not_special_of_isNamePart hp
    simpa [hb, hm] using hall d (by simp [hs])

end ApiBindings.TypeText
