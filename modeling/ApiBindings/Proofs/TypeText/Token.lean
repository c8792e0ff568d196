import ApiBindings.Text.WordChar
import ApiBindings.Text.Quoted
import ApiBindings.Json.Lexeme

/-!
The words, literals and marks of a type text. Main statements: what the scanner does with each
kind of lexeme at the front of a text.
-/

namespace ApiBindings.TypeText

inductive Token where
  | word (s : String)
  | string (body : List Char)
  | number (s : String)
  | mark (c : Char)
deriving DecidableEq

def isNamePart (c : Char) : Bool := Text.isWordChar c || c == '$'

def isNameStart (c : Char) : Bool := isNamePart c && !Text.isDecimalDigit c

/-- An identifier: letters of any script, digits, `_` and `$`, no decimal digit in front. -/
def isName : List Char → Bool
  | [] => false
  | c :: cs => isNameStart c && cs.all isNamePart

def isBlank (c : Char) : Bool := c == ' ' || c == '\n'

def marks : List Char := "()[]\x7b\x7d<>|&,;:?".toList

def isMark (c : Char) : Bool := marks.contains c

def quotedBody : List Char → Option (List Char × List Char)
  | [] => none
  | '"' :: rest => some ([], rest)
  | '\\' :: 'u' :: a :: b :: c :: d :: rest =>
    if (Json.codeUnit? a b c d).isSome then
      (quotedBody rest).map fun (body, after) => ('\\' :: 'u' :: a :: b :: c :: d :: body, after)
    else none
  | '\\' :: c :: rest =>
    if (Json.escaped? c).isSome then
      (quotedBody rest).map fun (body, after) => ('\\' :: c :: body, after)
    else none
  | c :: rest =>
    if c.toNat < 0x20 ∨ c = '\\' then none
    else (quotedBody rest).map fun (body, after) => (c :: body, after)

/-- The character that an escape by number stands for; half of a surrogate pair is none. -/
def unicode? (a b c d : Char) : Option Char :=
  (Json.codeUnit? a b c d).bind fun n =>
    if Json.isHighSurrogate n || Json.isLowSurrogate n then none else some (Char.ofNat n)

def unescape : List Char → Option (List Char)
  | [] => some []
  | '\\' :: 'u' :: a :: b :: c :: d :: rest =>
    (unicode? a b c d).bind fun e => (unescape rest).map (e :: ·)
  | '\\' :: c :: rest => (Json.escaped? c).bind fun e => (unescape rest).map (e :: ·)
  | c :: rest => (unescape rest).map (c :: ·)

def isInteger : List Char → Bool
  | '-' :: ds => isWhole ds
  | ds => isWhole ds
where
  isWhole : List Char → Bool
    | [] => false
    | ['0'] => true
    | d :: ds => d != '0' && (d :: ds).all Text.isDecimalDigit

theorem isNamePart_of_isDecimalDigit {c : Char} (h : Text.isDecimalDigit c = true) :
    isNamePart c = true := by
  have hd : c.isDigit = true := by
    simpa [Text.isDecimalDigit, Char.isDigit, Char.le_def] using h
  have hc : c.toNat < 0x80 := by
    have hle : c.toNat ≤ 57 := (Char.isDigit_iff_toNat.mp hd).2
    omega
  simp [isNamePart, Text.isWordChar, Text.isLetterOrDigit_ascii hc, Char.isAlphanum, hd]

theorem isBlank_of_isMark {c : Char} (h : isMark c = true) : isBlank c = false := by
  have hall : marks.all (fun m => !isBlank m) = true := by decide
  have hno := List.all_eq_true.mp hall c (List.contains_iff_mem.mp h)
  simpa using hno

theorem not_special_of_isNamePart {c : Char} (h : isNamePart c = true) :
    isBlank c = false ∧ isMark c = false ∧ c ≠ '"' := by
  have hall : (' ' :: '\n' :: '"' :: marks).all (fun m => !isNamePart m) = true := by decide
  have hnot : c ∉ ' ' :: '\n' :: '"' :: marks := by
    intro hc
    have hno := List.all_eq_true.mp hall c hc
    simp [h] at hno
  simp only [List.mem_cons, not_or] at hnot
  obtain ⟨hs, hn, hq, hm⟩ := hnot
  exact ⟨by simp [isBlank, hs, hn], by simpa [isMark] using hm, hq⟩

theorem isInteger.digits_of_isWhole {ds : List Char} (h : isInteger.isWhole ds = true) :
    ∀ d ∈ ds, Text.isDecimalDigit d = true := by
  fun_cases isInteger.isWhole ds with
  | case1 => simp
  | case2 => simp [Text.isDecimalDigit]
  | case3 d ds hd =>
    rw [isInteger.isWhole, Bool.and_eq_true, List.all_eq_true] at h
    · exact h.2
    · exact hd

theorem digits_of_isInteger {c : Char} {cs : List Char} (h : isInteger (c :: cs) = true) :
    (c = '-' ∨ Text.isDecimalDigit c = true) ∧ ∀ d ∈ cs, Text.isDecimalDigit d = true := by
  by_cases hc : c = '-'
  · subst hc
    exact ⟨.inl rfl, isInteger.digits_of_isWhole h⟩
  · rw [isInteger] at h
    · have hall := isInteger.digits_of_isWhole h
      exact ⟨.inr (hall c List.mem_cons_self), fun d hd => hall d (List.mem_cons_of_mem c hd)⟩
    · intro ds he
      exact hc (List.cons.inj he).1

theorem eq_of_quotedBody {s body after : List Char} (h : quotedBody s = some (body, after)) :
    s = body ++ '"' :: after := by
  fun_induction quotedBody s generalizing body after with
  | case2 tail =>
    cases h
    rfl
  | case3 a b c d tail hu ih =>
    obtain ⟨⟨body', after'⟩, h', he⟩ := Option.map_eq_some_iff.mp h
    cases he
    rw [ih h']
    rfl
  | case5 c tail hne hc ih =>
    obtain ⟨⟨body', after'⟩, h', he⟩ := Option.map_eq_some_iff.mp h
    cases he
    rw [ih h']
    rfl
  | case8 c tail hq hu he hc ih =>
    obtain ⟨⟨body', after'⟩, h', he⟩ := Option.map_eq_some_iff.mp h
    cases he
    rw [ih h']
    rfl
  | _ => cases h

theorem quotedBody_length {s body after : List Char} (h : quotedBody s = some (body, after)) :
    after.length < s.length := by
  rw [eq_of_quotedBody h, List.length_append, List.length_cons]
  omega

theorem quotedBody_append {s body after rest : List Char}
    (h : quotedBody s = some (body, after)) :
    quotedBody (s ++ rest) = some (body, after ++ rest) := by
  fun_induction quotedBody s generalizing body after with
  | case1 => cases h
  | case2 tail =>
    cases h
    rfl
  | case3 a b c d tail hu ih =>
    obtain ⟨⟨body', after'⟩, h', he⟩ := Option.map_eq_some_iff.mp h
    cases he
    simp [quotedBody, hu, ih h']
  | case4 => cases h
  | case5 c tail hne hc ih =>
    obtain ⟨⟨body', after'⟩, h', he⟩ := Option.map_eq_some_iff.mp h
    cases he
    rw [List.cons_append, List.cons_append, quotedBody]
    · simp [hc, ih h']
    · intro a b c' d tail' hu
      subst hu
      cases hc
  | case6 => cases h
  | case7 => cases h
  | case8 c tail hq hu he hc ih =>
    obtain ⟨⟨body', after'⟩, h', he⟩ := Option.map_eq_some_iff.mp h
    cases he
    rw [List.cons_append, quotedBody]
    · simp [hc, ih h']
    · exact hq
    · intro a b c' d tail' hs
      exact absurd (.inr hs) hc
    · intro c' tail' hs
      exact absurd (.inr hs) hc

theorem codeUnit?_hexDigits {n : Nat} (h : n < 0x20) :
    ∃ a b, Text.hexDigits 4 n = ['0', '0', a, b] ∧ Json.codeUnit? '0' '0' a b = some n := by
  refine ⟨Text.hexDigit (n / 16), Text.hexDigit (n % 16), ?_, ?_⟩
  · have hdiv : n / 16 / 16 = 0 := by omega
    simp [Text.hexDigits, hdiv, Nat.mod_eq_of_lt (show n / 16 < 16 by omega)]
    decide
  · have hall : ∀ m < 0x20, Json.codeUnit? '0' '0' (Text.hexDigit (m / 16))
        (Text.hexDigit (m % 16)) = some m := by decide
    exact hall n h

/-- A character between quotes is an escape of one letter, an escape by number or itself. -/
theorem quotedChar_cases (c : Char) :
    (∃ e, Text.quotedChar c = ['\\', e] ∧ Json.escaped? e = some c) ∨
    (∃ a b, Text.quotedChar c = ['\\', 'u', '0', '0', a, b] ∧ c.toNat < 0x20 ∧
      Json.codeUnit? '0' '0' a b = some c.toNat) ∨
    (Text.quotedChar c = [c] ∧ ¬ c.toNat < 0x20 ∧ c ≠ '\\' ∧ c ≠ '"') := by
  fun_cases Text.quotedChar c with
  | case1 h => exact .inl ⟨'"', rfl, congrArg some h.symm⟩
  | case2 _ h => exact .inl ⟨'\\', rfl, congrArg some h.symm⟩
  | case3 _ _ h => exact .inl ⟨'n', rfl, congrArg some h.symm⟩
  | case4 _ _ _ h => exact .inl ⟨'r', rfl, congrArg some h.symm⟩
  | case5 _ _ _ _ h => exact .inl ⟨'t', rfl, congrArg some h.symm⟩
  | case6 _ _ _ _ _ h =>
    have hc : c = '\x08' := Char.toNat_inj.mp h
    exact .inl ⟨'b', rfl, congrArg some hc.symm⟩
  | case7 _ _ _ _ _ _ h =>
    have hc : c = '\x0c' := Char.toNat_inj.mp h
    exact .inl ⟨'f', rfl, congrArg some hc.symm⟩
  | case8 _ _ _ _ _ _ _ h =>
    obtain ⟨a, b, hd, hu⟩ := codeUnit?_hexDigits h
    exact .inr (.inl ⟨a, b, by rw [hd], h, hu⟩)
  | case9 hs hd _ _ _ _ _ h => exact .inr (.inr ⟨rfl, h, hd, hs⟩)

theorem escaped?_ne_u {e c : Char} (h : Json.escaped? e = some c) : e ≠ 'u' := by
  rintro rfl
  cases h

theorem quotedBody_quotedChar (c : Char) (rest : List Char) :
    quotedBody (Text.quotedChar c ++ rest) =
      (quotedBody rest).map fun (body, after) => (Text.quotedChar c ++ body, after) := by
  rcases quotedChar_cases c with ⟨e, hq, he⟩ | ⟨a, b, hq, hc, hu⟩ | ⟨hq, hc, hs, hd⟩
  · rw [hq, List.cons_append, List.cons_append, quotedBody]
    · simp [he]
    · intro a b c d rest hu
      exact absurd hu (escaped?_ne_u he)
  · simp [hq, quotedBody, hu]
  · rw [hq, List.cons_append, quotedBody]
    · simp [hc, hs]
    · exact hd
    · intro a b c d rest h
      exact absurd h hs
    · intro c rest h
      exact absurd h hs

theorem quotedBody_flatMap (cs rest : List Char) :
    quotedBody (cs.flatMap Text.quotedChar ++ '"' :: rest) =
      some (cs.flatMap Text.quotedChar, rest) := by
  induction cs with
  | nil => rfl
  | cons c cs ih =>
    rw [List.flatMap_cons, List.append_assoc, quotedBody_quotedChar, ih]
    rfl

theorem unescape_quotedChar (c : Char) (rest : List Char) :
    unescape (Text.quotedChar c ++ rest) = (unescape rest).map (c :: ·) := by
  rcases quotedChar_cases c with ⟨e, hq, he⟩ | ⟨a, b, hq, hc, hu⟩ | ⟨hq, hc, hs, hd⟩
  · rw [hq, List.cons_append, List.cons_append, unescape]
    · rw [he]
      rfl
    · intro a b c d rest hu
      exact absurd hu (escaped?_ne_u he)
  · have he : unicode? '0' '0' a b = some c := by
      have hh : Json.isHighSurrogate c.toNat = false := by
        simp only [Json.isHighSurrogate, Bool.and_eq_false_iff, decide_eq_false_iff_not]
        omega
      have hl : Json.isLowSurrogate c.toNat = false := by
        simp only [Json.isLowSurrogate, Bool.and_eq_false_iff, decide_eq_false_iff_not]
        omega
      simp [unicode?, hu, hh, hl]
    rw [hq]
    simp [unescape, he]
  · rw [hq, List.cons_append, unescape]
    · rfl
    · intro a b c d rest h
      exact absurd h hs
    · intro c rest h
      exact absurd h hs

theorem unescape_flatMap (cs : List Char) :
    unescape (cs.flatMap Text.quotedChar) = some cs := by
  induction cs with
  | nil => rfl
  | cons c cs ih =>
    rw [List.flatMap_cons, unescape_quotedChar, ih]
    rfl

end ApiBindings.TypeText
