import ApiBindings.Proofs.Toml.Escapes
import ApiBindings.Toml.Header
import ApiBindings.Toml.Layout

/-!
The first reading of a line that gives a key without quotes a text or a plain value. Main statement:
the line is kept as it is, and the next one is read as the first one was.
-/

namespace ApiBindings.Toml

variable {s t w done rest key : List Char} {c x : Char}

def signs : List Char := ['.', '\n', '"', '\'', '[', ']', '\x7b', '#', '=']

theorem toNat_lt_of_isBareNameChar (h : isBareNameChar c = true) : c.toNat < 0x80 := by
  simp only [isBareNameChar, Bool.or_eq_true, beq_iff_eq] at h
  obtain (h | rfl) | rfl := h
  · exact Text.toNat_lt_of_isAlphanum h
  · decide
  · decide

/-- What holds of the bare characters among those of ASCII holds of all. -/
theorem of_isBareNameChar {P : Char → Prop}
    (hall : ∀ n < 0x80, isBareNameChar (Char.ofNat n) = true → P (Char.ofNat n))
    (h : isBareNameChar c = true) : P c := by
  have hp := hall c.toNat (toNat_lt_of_isBareNameChar h)
  rw [Char.ofNat_toNat] at hp
  exact hp h

theorem isBareNameChar_plain (h : isBareNameChar c = true) :
    Layout.isKeyChar c = true ∧ Text.isSpace c = false ∧ c ∉ signs :=
  of_isBareNameChar (P := fun c => Layout.isKeyChar c = true ∧ Text.isSpace c = false ∧ c ∉ signs)
    (by decide) h

theorem isPrintable_of_isBareNameChar (h : isBareNameChar c = true) :
    Text.isPrintable c = true :=
  of_isBareNameChar (P := fun c => Text.isPrintable c = true) (by decide) h

structure IsBareKey (key : List Char) : Prop where
  nonempty : key ≠ []
  chars : ∀ c ∈ key, isBareNameChar c = true

/-- Plain characters of a text stand for themselves between double quotes. -/
def IsPlain (c : Char) : Prop := Text.isPrintable c = true ∧ c ≠ '"'

/-- What stands behind the sign of a line, and the value that it is. -/
inductive WritesValue : List Char → Value → Prop
  | text {s t : List Char} : Writes IsPlain s t → ¬ OpensLong t →
    WritesValue ('"' :: (s ++ ['"'])) (.str (String.ofList t))
  | yes : WritesValue ['t', 'r', 'u', 'e'] (.bool true)

inductive WritesEntry : List Char → Scalar × Value → Prop
  | mk {key w : List Char} {v : Value} : IsBareKey key → WritesValue w v →
    WritesEntry (key ++ ' ' :: '=' :: ' ' :: w) (.str (String.ofList key), v)

def unlines (lines : List (List Char)) : List Char := lines.flatMap (· ++ ['\n'])

theorem unlines_cons (line : List Char) (lines : List (List Char)) :
    unlines (line :: lines) = line ++ '\n' :: unlines lines := by
  simp [unlines]

namespace Layout

variable {st st' : Layout}

def resting (done : List Char) : Layout := { start with done := done }

def inKey (done : List Char) : Layout :=
  { start with done := done, key := .within, atLineStart := false }

def inValue (done : List Char) : Layout := { start with done := done, atLineStart := false }

def inText (done : List Char) : Layout :=
  { start with done := done, quote := some '"', isOpen := true, atLineStart := false }

theorem run_of_readChar (hcomment : (st.key = .none && st.startsComment c : Bool) = false)
    (h : st.readChar c rest = .ok st') : st.run false (c :: rest) = st'.run false rest := by
  rw [run, hcomment, h]
  rfl

section Key

theorem run_key_start (h : isBareNameChar c = true) :
    (resting done).run false (c :: rest) = (inKey (c :: done)).run false rest := by
  obtain ⟨-, hspace, hsigns⟩ := isBareNameChar_plain h
  have hblank : c ≠ ' ' ∧ c ≠ '\t' := by
    constructor <;> rintro rfl <;> exact absurd hspace (by decide)
  simp only [signs, List.mem_cons, List.not_mem_nil, not_or] at hsigns
  refine run_of_readChar (by simp [startsComment, hsigns]) ?_
  simp [readChar, readPlain, readQuote, readBracket, resting, inKey, start, push, hsigns, hblank]

theorem run_key_char (h : isBareNameChar c = true) :
    (inKey done).run false (c :: rest) = (inKey (c :: done)).run false rest := by
  obtain ⟨hkey, hspace, hsigns⟩ := isBareNameChar_plain h
  simp only [signs, List.mem_cons, List.not_mem_nil, not_or] at hsigns
  refine run_of_readChar rfl ?_
  simp [readChar, readKey, inKey, start, push, hkey, hspace, hsigns, bind, Except.bind, pure,
    Except.pure]

theorem run_key (h : ∀ c ∈ key, isBareNameChar c = true) (rest : List Char) :
    (inKey done).run false (key ++ rest) = (inKey (key.reverse ++ done)).run false rest := by
  induction key generalizing done with
  | nil => rfl
  | cons c key ih =>
    obtain ⟨hc, hkey⟩ := List.forall_mem_cons.mp h
    rw [List.cons_append, run_key_char hc, ih hkey, List.reverse_cons, List.append_assoc,
      List.singleton_append]

theorem run_sign (done rest : List Char) : (inKey done).run false (' ' :: '=' :: ' ' :: rest) =
    (inValue (' ' :: '=' :: ' ' :: done)).run false rest := by
  have hspace : Text.isSpace ' ' = true ∧ Text.isSpace '=' = false := by decide
  have hbehind : (inKey done).readChar ' ' ('=' :: ' ' :: rest) =
      .ok { (inKey (' ' :: done)) with key := .behind } := by
    simp [readChar, readKey, inKey, start, push, hspace, bind, Except.bind, pure, Except.pure]
  have hsign : { (inKey (' ' :: done)) with key := .behind }.readChar '=' (' ' :: rest) =
      .ok (inValue ('=' :: ' ' :: done)) := by
    simp [readChar, readKey, readPlain, readQuote, readBracket, inKey, inValue, start, push, hspace,
      bind, Except.bind]
  have hblank : (inValue ('=' :: ' ' :: done)).readChar ' ' rest =
      .ok (inValue (' ' :: '=' :: ' ' :: done)) := by
    simp [readChar, readPlain, readQuote, readBracket, inValue, start, push]
  rw [run_of_readChar rfl hbehind, run_of_readChar rfl hsign, run_of_readChar rfl hblank]

end Key

section Value

theorem run_text_start (done rest : List Char) : (inValue (' ' :: done)).run false ('"' :: rest) =
    (inText ('"' :: ' ' :: done)).run false rest := by
  refine run_of_readChar rfl ?_
  simp [readChar, readPlain, readQuote, readBracket, quotesBefore, Text.endsEscaped, toggle,
    inValue, inText, start, push]

theorem run_text_char (hquote : c ≠ '"') (hbreak : c ≠ '\n') :
    (inText done).run false (c :: rest) = (inText (c :: done)).run false rest := by
  refine run_of_readChar (by simp [startsComment, inText]) ?_
  simp [readChar, readPlain, readQuote, readBracket, inText, start, push, hquote, hbreak]

theorem run_escaped_quote (h : Text.endsEscaped done = false) :
    (inText ('\\' :: done)).run false ('"' :: rest) =
      (inText ('"' :: '\\' :: done)).run false rest := by
  have hescaped : Text.endsEscaped ('\\' :: done) = true := by simp [endsEscaped_cons, h]
  refine run_of_readChar (by simp [startsComment, inText]) ?_
  simp [readChar, readPlain, readQuote, readBracket, quotesBefore, inText, start, push, hescaped]

theorem run_text_end (h : Text.endsEscaped done = false) (hquotes : quotesBefore '"' done ≤ 1) :
    (inText done).run false ('"' :: rest) = (inValue ('"' :: done)).run false rest := by
  have hopen : ((quotesBefore '"' done != 1) &&
      Text.endsEscaped (done.drop (quotesBefore '"' done)) : Bool) = false := by
    obtain hbefore | hbefore : quotesBefore '"' done = 0 ∨ quotesBefore '"' done = 1 := by omega
    · simp [hbefore, h]
    · simp [hbefore]
  have htriple : (quotesBefore '"' done == 2) = false := by simp; omega
  refine run_of_readChar (by simp [startsComment, inText]) ?_
  simp [readChar, readPlain, readQuote, readBracket, toggle, inText, inValue, start, push, hopen,
    htriple]

/-- A written text is kept, and the quote behind it closes it. -/
theorem run_text (h : Writes IsPlain s t) (hdone : Text.endsEscaped done = false)
    (hquotes : quotesBefore '"' done ≤ 1) (rest : List Char) :
    (inText done).run false (s ++ '"' :: rest) =
      (inValue ('"' :: (s.reverse ++ done))).run false rest := by
  -- A quote in the text has a backslash before it, so that no three quotes meet at its end.
  induction h generalizing done with
  | nil => exact run_text_end hdone hquotes
  | @plain c s t hc hslash _ ih =>
    have hbreak : c ≠ '\n' := by
      rintro rfl
      exact absurd hc.1 (by decide)
    rw [List.cons_append, run_text_char hc.2 hbreak, ih]
    · simp
    · simp [endsEscaped_cons, hslash]
    · simp [quotesBefore, hc.2]
  | @escape x c s t hx _ ih =>
    have hletters : ∀ e ∈ shortEscapes, e.1 ≠ '\n' := by decide
    rw [List.cons_append, run_text_char (by decide) (by decide), List.cons_append]
    have hrun : (inText ('\\' :: done)).run false (x :: (s ++ '"' :: rest)) =
        (inText (x :: '\\' :: done)).run false (s ++ '"' :: rest) := by
      by_cases hquote : x = '"'
      · subst hquote
        exact run_escaped_quote hdone
      · exact run_text_char hquote (hletters _ hx)
    rw [hrun, ih]
    · simp
    · simp [endsEscaped_cons, hdone]
    · rw [quotesBefore, List.take_succ_cons, List.takeWhile_cons]
      split_ifs <;> simp

theorem run_value {v : Value} (h : WritesValue w v) (done rest : List Char) :
    (inValue (' ' :: done)).run false (w ++ rest) =
      (inValue (w.reverse ++ ' ' :: done)).run false rest := by
  cases h with
  | text h =>
    rw [List.cons_append, run_text_start, List.append_assoc, List.singleton_append, run_text h]
    · simp
    · rfl
    · simp [quotesBefore]
  | yes => rfl

end Value

section Lines

variable {line : List Char} {lines : List (List Char)} {e : Scalar × Value} {es : Entries}

theorem run_line (h : WritesEntry line e) (done rest : List Char) :
    (resting done).run false (line ++ '\n' :: rest) =
      (resting ('\n' :: (line.reverse ++ done))).run false rest := by
  obtain ⟨⟨hkey, hchars⟩, hvalue⟩ := h
  rename_i key w v
  obtain ⟨c, key, rfl⟩ := List.exists_cons_of_ne_nil hkey
  obtain ⟨hc, hchars⟩ := List.forall_mem_cons.mp hchars
  have hbreak (done : List Char) : (inValue done).run false ('\n' :: rest) =
      (resting ('\n' :: done)).run false rest := rfl
  simp only [List.cons_append, List.append_assoc]
  rw [run_key_start hc, run_key hchars, run_sign, run_value hvalue, hbreak]
  simp

theorem run_lines (h : List.Forall₂ WritesEntry lines es) (done : List Char) :
    (resting done).run false (unlines lines) =
      .ok (resting ((unlines lines).reverse ++ done)) := by
  induction h generalizing done with
  | nil => rfl
  | cons he _ ih =>
    rw [unlines_cons, run_line he, ih]
    simp

theorem layout_unlines (h : List.Forall₂ WritesEntry lines es) :
    layout (unlines lines) = .ok (unlines lines) := by
  have hrun := run_lines h []
  rw [List.append_nil] at hrun
  rw [layout, show start = resting [] from rfl, hrun]
  simp [resting, start, bind, Except.bind, pure, Except.pure]

end Lines

end Layout

end ApiBindings.Toml
