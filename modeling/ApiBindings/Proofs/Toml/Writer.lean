import ApiBindings.Proofs.Success
import ApiBindings.Proofs.Text.Literal
import ApiBindings.Proofs.Text.Marker
import ApiBindings.Proofs.Text.Pieces
import ApiBindings.Proofs.Text.Rewritten
import ApiBindings.Proofs.Toml.Layout
import ApiBindings.Toml.Writer

/-!
Flat tables as they are written: a line for each entry. Main statements: the text can be encoded,
and there is no carriage return in it, so that reading it from a file changes nothing.
-/

namespace ApiBindings.Toml

variable {es : Entries} {s cs : List Char} {x : Char}

def IsFlatEntry (e : Scalar × Value) : Prop :=
  (∃ key, e.1 = .str key) ∧ ((∃ text, e.2 = .str text) ∨ e.2 = .bool true)

def IsFlat (es : Entries) : Prop := ∀ e ∈ es, IsFlatEntry e

def lineText (e : Scalar × Value) : Except Defect String := do
  let key ← keyText e.1
  let text ← valueText e.2
  return key ++ " = " ++ text ++ "\n"

theorem add_flat {e : Scalar × Value} (he : IsFlatEntry e) (t : TableText)
    (arrayOf : String → List Value → Except Defect String) :
    TableText.add t arrayOf e = do
      let line ← lineText e
      return { t with values := t.values ++ line } := by
  obtain ⟨k, v⟩ := e
  have hvalue : TableText.add t arrayOf (k, v) = do
      let key ← keyText k
      let text ← valueText v
      return { t with values := t.values ++ key ++ " = " ++ text ++ "\n" } := by
    obtain ⟨-, ⟨text, rfl⟩ | rfl⟩ := he <;> rfl
  rw [hvalue, lineText]
  cases keyText k with
  | error e => rfl
  | ok key =>
    cases valueText v with
    | error e => rfl
    | ok text =>
      simp only [bind, Except.bind, pure, Except.pure, String.append_assoc]

theorem foldlM_flat (h : IsFlat es) (arrayOf : String → List Value → Except Defect String)
    (t : TableText) : es.foldlM (fun t e => TableText.add t arrayOf e) t = do
      let lines ← es.mapM lineText
      return { t with values := t.values ++ String.join lines } := by
  induction es generalizing t with
  | nil => simp [pure, Except.pure, bind, Except.bind]
  | cons e es ih =>
    obtain ⟨he, hes⟩ := List.forall_mem_cons.mp h
    rw [List.foldlM_cons, add_flat he, List.mapM_cons]
    cases lineText e with
    | error e => rfl
    | ok line =>
      simp only [bind, Except.bind, pure, Except.pure]
      rw [ih hes]
      cases es.mapM lineText with
      | error e => rfl
      | ok lines =>
        simp only [bind, Except.bind, pure, Except.pure, String.join_cons, String.append_assoc]

theorem write_flat (h : IsFlat es) : write es = do return String.join (← es.mapM lineText) := by
  rw [write]
  simp only [writeTable, foldlM_flat h]
  cases es.mapM lineText with
  | error e => rfl
  | ok lines =>
    simp [bind, Except.bind, pure, Except.pure, writeSections]

section Quoted

theorem not_mem_hexDigits (hx : ∀ d < 16, x ≠ Text.hexDigit d) (k n : Nat) :
    x ∉ Text.hexDigits k n := by
  induction k generalizing n with
  | zero => exact List.not_mem_nil
  | succ k ih =>
    rw [Text.hexDigits, List.mem_append, List.mem_singleton, not_or]
    exact ⟨ih _, hx _ (Nat.mod_lt n (by decide))⟩

theorem not_mem_literalChar {q c : Char} (hx : x ∈ ['\'', '"']) (hc : c ≠ x) :
    x ∉ Text.literalChar q c := by
  have hslash : ∀ x ∈ ['\'', '"'], x ∉ ['\\', 'n', 'r', 't', 'x', 'u', 'U'] := by decide
  have hdigits : ∀ x ∈ ['\'', '"'], ∀ d < 16, x ≠ Text.hexDigit d := by decide
  have hslash := hslash x hx
  have hdigits := not_mem_hexDigits (hdigits x hx)
  simp only [List.mem_cons, not_or] at hslash
  unfold Text.literalChar
  split_ifs <;> simp [hslash, hdigits, Ne.symm hc]

theorem literalChar_changeQuote (c : Char) : Text.expand '"' ['\\', '"']
    (Text.contract '\\' '\'' '\'' (Text.literalChar '\'' c)) = Text.literalChar '"' c := by
  by_cases hsingle : c = '\''
  · subst hsingle
    decide
  by_cases hdouble : c = '"'
  · subst hdouble
    decide
  have hsame : Text.literalChar '\'' c = Text.literalChar '"' c := by
    simp [Text.literalChar, hsingle, hdouble]
  rw [Text.contract_of_not_mem (not_mem_literalChar (by simp) hsingle),
    Text.expand_of_not_mem (not_mem_literalChar (by simp) hdouble), hsame]

theorem head?_flatMap_literalChar (s : List Char) :
    (s.flatMap (Text.literalChar '\'')).head? ≠ some '\'' := by
  cases s with
  | nil => simp
  | cons c s =>
    rw [List.flatMap_cons, List.head?_append_of_ne_nil _ (Text.literalChar_ne_nil _ _)]
    unfold Text.literalChar
    split_ifs <;> simp_all

/-- A text is escaped as it is in a literal between double quotes, whatever its own literal is. -/
theorem flatMap_changeQuote (s : List Char) : Text.expand '"' ['\\', '"']
    (Text.contract '\\' '\'' '\'' (s.flatMap (Text.literalChar '\''))) =
      s.flatMap (Text.literalChar '"') := by
  induction s with
  | nil => rfl
  | cons c s ih =>
    rw [List.flatMap_cons, Text.contract_append (head?_flatMap_literalChar s), Text.expand,
      List.flatMap_append, ← Text.expand, ← Text.expand, literalChar_changeQuote, ih,
      List.flatMap_cons]

/-- The characters of a text between double quotes, before the hexadecimal codes are joined. -/
def escaped (text : String) : List Char := text.toList.flatMap (Text.literalChar '"')

theorem inner_cons_append (q : Char) (s : List Char) : inner (q :: s ++ [q]) = s := by
  simp [inner]

theorem quoted_literal (text : String) : quoted (Text.literal text) =
    match Text.splitOn ['\\', 'x'] (escaped text) with
    | [] => .ok "\"\""
    | piece :: rest => do return "\"" ++ String.ofList (← joinMarks piece rest) ++ "\"" := by
  have hliteral : (Text.literal text).toList = Text.literalQuote text.toList ::
      text.toList.flatMap (Text.literalChar (Text.literalQuote text.toList)) ++
        [Text.literalQuote text.toList] := by
    rw [Text.literal, String.toList_ofList]
  rw [quoted, hliteral]
  rcases Text.literalQuote_cases text.toList with hquote | hquote
  · rw [hquote]
    simp only [List.cons_append]
    rw [← List.cons_append, inner_cons_append, flatMap_changeQuote]
    rfl
  · rw [hquote]
    simp only [List.cons_append]
    rw [← List.cons_append, inner_cons_append]
    rfl

end Quoted

section Unprintable

variable (hx : Text.isPrintable x = false)
include hx

theorem ne_of_isPrintable {c : Char} (hc : Text.isPrintable c = true) : x ≠ c := by
  rintro rfl
  rw [hx] at hc
  cases hc

theorem not_mem_of_printable (hcs : ∀ c ∈ cs, Text.isPrintable c = true) : x ∉ cs :=
  fun hmem => ne_of_isPrintable hx (hcs x hmem) rfl

theorem not_mem_joined {before after out : List Char}
    (hout : joinMarks.joined before after = .ok out) (hbefore : x ∉ before)
    (hafter : x ∉ after) : x ∉ out := by
  have hcontract : x ∉ Text.contract '\\' '\\' '\\' before :=
    Text.not_mem_contract (ne_of_isPrintable hx (by decide)) hbefore
  have hcode : x ∉ ['u', '0', '0'] := not_mem_of_printable hx (by decide)
  have hletter : x ≠ 'x' := ne_of_isPrintable hx (by decide)
  unfold joinMarks.joined at hout
  dsimp only at hout
  split_ifs at hout
  · cases hout
    rw [List.mem_append, List.mem_append, not_or, not_or]
    exact ⟨⟨hcontract, hcode⟩, hafter⟩
  · cases hout
    rw [List.mem_append, List.mem_cons, not_or, not_or]
    exact ⟨hcontract, hletter, hafter⟩

theorem not_mem_joinMarks {piece out : List Char} {rest : List (List Char)}
    (hout : joinMarks piece rest = .ok out) (hpiece : x ∉ piece)
    (hrest : ∀ p ∈ rest, x ∉ p) : x ∉ out := by
  fun_induction joinMarks piece rest with
  | case1 =>
    cases hout
    exact hpiece
  | case2 => cases hout
  | case3 piece next _ after rest ih =>
    obtain ⟨hnext, hrest⟩ := List.forall_mem_cons.mp hrest
    obtain ⟨hafter, hrest⟩ := List.forall_mem_cons.mp hrest
    obtain ⟨joined, hjoined, hout⟩ := bind_eq_ok.mp hout
    exact ih joined hout (not_mem_joined hx hjoined hnext hafter) hrest
  | case4 piece next rest _ ih =>
    obtain ⟨hnext, hrest⟩ := List.forall_mem_cons.mp hrest
    obtain ⟨joined, hjoined, hout⟩ := bind_eq_ok.mp hout
    exact ih joined hout (not_mem_joined hx hjoined hpiece hnext) hrest

theorem not_mem_escaped (text : String) : x ∉ escaped text := by
  intro h
  obtain ⟨c, -, hc⟩ := List.mem_flatMap.mp h
  exact not_mem_of_printable hx (Text.printable_literalChar (by decide) c) hc

theorem not_mem_quoted {text out : String} (h : quoted (Text.literal text) = .ok out) :
    x ∉ out.toList := by
  have hpieces :=
    Text.not_mem_splitOnFrom ['\\', 'x'] List.not_mem_nil (not_mem_escaped hx text)
  have hquote : x ≠ '"' := ne_of_isPrintable hx (by decide)
  rw [quoted_literal] at h
  split at h
  · cases h
    exact not_mem_of_printable hx (by decide)
  · rename_i piece rest hsplit
    rw [← Text.splitOn, hsplit] at hpieces
    obtain ⟨hpiece, hrest⟩ := List.forall_mem_cons.mp hpieces
    obtain ⟨joined, hjoined, h⟩ := bind_eq_ok.mp h
    have hmem := not_mem_joinMarks hx hjoined hpiece hrest
    rw [← pure_eq_ok.mp h]
    simp [hmem, hquote]

theorem not_mem_keyText {key out : String} (h : keyText (.str key) = .ok out) :
    x ∉ out.toList := by
  unfold keyText at h
  dsimp only at h
  split_ifs at h with hbare
  · cases h
    exact not_mem_of_printable hx fun c hc =>
      isPrintable_of_isBareNameChar (List.all_eq_true.mp hbare.2 c hc)
  · exact not_mem_quoted hx h

theorem not_mem_lineText {e : Scalar × Value} {line : String} (he : IsFlatEntry e)
    (h : lineText e = .ok line) (hline : x ≠ '\n') : x ∉ line.toList := by
  obtain ⟨k, v⟩ := e
  obtain ⟨⟨name, rfl⟩, hv⟩ := he
  rw [lineText] at h
  obtain ⟨key, hkey, h⟩ := bind_eq_ok.mp h
  obtain ⟨text, htext, h⟩ := bind_eq_ok.mp h
  have hvalue : x ∉ text.toList := by
    obtain ⟨value, rfl⟩ | rfl := hv
    · exact not_mem_quoted hx htext
    · cases htext
      exact not_mem_of_printable hx (by decide)
  have hequals : x ∉ " = ".toList := not_mem_of_printable hx (by decide)
  rw [← pure_eq_ok.mp h]
  simp only [String.toList_append, List.mem_append, not_or]
  exact ⟨⟨⟨not_mem_keyText hx hkey, hequals⟩, hvalue⟩, by simpa using hline⟩

theorem not_mem_write {text : String} (hes : IsFlat es) (h : write es = .ok text)
    (hline : x ≠ '\n') : x ∉ text.toList := by
  rw [write_flat hes] at h
  obtain ⟨lines, hlines, h⟩ := bind_eq_ok.mp h
  rw [← pure_eq_ok.mp h, String.toList_join]
  intro hmem
  obtain ⟨line, hin, hmem⟩ := List.mem_flatMap.mp hmem
  obtain ⟨e, he, hwritten⟩ := exists_left_of_forall₂ (mapM_eq_ok.mp hlines) hin
  exact not_mem_lineText hx (hes e he) hwritten hline hmem

end Unprintable

theorem isEncodable_write {text : String} (hes : IsFlat es) (h : write es = .ok text) :
    Text.isEncodable text = true := by
  refine Text.isEncodable_iff.mpr fun c hc => ?_
  by_contra hcarrier
  rw [Bool.not_eq_false] at hcarrier
  have hline : c ≠ '\n' := by
    rintro rfl
    exact absurd hcarrier (by decide)
  exact not_mem_write (Text.isPrintable_of_carriesHalf hcarrier) hes h hline hc

end ApiBindings.Toml
