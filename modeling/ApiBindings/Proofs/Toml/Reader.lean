import ApiBindings.Proofs.Document.Tree
import ApiBindings.Proofs.Success
import ApiBindings.Proofs.Text.Occurrence
import ApiBindings.Proofs.Toml.Layout
import ApiBindings.Proofs.Toml.Writer
import ApiBindings.Toml.Reader

/-!
Flat tables that are written and read again. Main statement: a table with keys that need no quotes
is read as it was written, if its texts are of printable characters and white space, without a
backslash before an x, and do not begin like texts of several lines.
-/

namespace ApiBindings.Toml

variable {s t w key line : List Char} {c x : Char} {v : Value} {e : Scalar × Value}

section Key

theorem IsBareKey.not_mem (h : IsBareKey key) (hx : x ∈ signs) : x ∉ key := fun hmem =>
  (isBareNameChar_plain (h.chars x hmem)).2.2 hx

theorem IsBareKey.isTight (h : IsBareKey key) : Text.IsTight key :=
  Text.isTight_of_forall h.nonempty fun c hc => (isBareNameChar_plain (h.chars c hc)).2.1

def keyed (key : List Char) : List Char := key ++ [' ', '=', ' ']

theorem IsBareKey.not_mem_keyed (h : IsBareKey key) (hx : x ∈ signs) (hne : x ≠ '=') :
    x ∉ keyed key := by
  have hspace : x ≠ ' ' := by
    rintro rfl
    exact absurd hx (by decide)
  simp [keyed, h.not_mem hx, hspace, hne]

theorem keyPath_of_isBareKey (h : IsBareKey key) : keyPath key = .ok ([], String.ofList key) := by
  have hdot : key.contains '.' = false := by
    simpa using h.not_mem (x := '.') (by decide)
  obtain ⟨c, hc, -⟩ := h.isTight.first
  obtain ⟨d, hd, -⟩ := h.isTight.last
  have hquote : isQuote c = false := by
    have hmem := List.mem_of_mem_head? hc
    have hdouble : c ≠ '"' := fun h' => h.not_mem (x := '"') (by decide) (h' ▸ hmem)
    have hsingle : c ≠ '\'' := fun h' => h.not_mem (x := '\'') (by decide) (h' ▸ hmem)
    simp [isQuote, hdouble, hsingle]
  rw [keyPath, hdot]
  simp [hc, hd, hquote]

end Key

section Line

theorem WritesValue.isTight (h : WritesValue w v) : Text.IsTight w := by
  have hquote : Text.isSpace '"' = false := by decide
  cases h with
  | text => exact ⟨⟨'"', rfl, hquote⟩, ⟨'"', by simp [List.getLast?_cons], hquote⟩⟩
  | yes => exact Text.isTight_of_forall (by decide) (by decide)

theorem quotePieces_keyed (hkey : IsBareKey key) (hw : WritesValue w v) :
    ∃ more rest, quotePieces (keyed key ++ w) = (keyed key ++ more) :: rest := by
  have hsingle : '\'' ∉ keyed key := hkey.not_mem_keyed (by decide) (by decide)
  have hdouble : '"' ∉ keyed key := hkey.not_mem_keyed (by decide) (by decide)
  cases hw with
  | @text s t =>
    obtain ⟨more, rest, hrest⟩ := Text.splitOnFrom_cons ['"'] [] (s ++ ['"'])
    refine ⟨[], more :: rest, ?_⟩
    rw [← Text.splitOn] at hrest
    rw [quotePieces, Text.splitOn_append hdouble, hrest]
    simp [hsingle, Text.splitOn_of_not_mem hsingle]
  | yes =>
    refine ⟨['t', 'r', 'u', 'e'], [], ?_⟩
    rw [quotePieces, Text.splitOn_of_not_mem (by simp [hdouble])]
    simp only [List.append_nil]
    exact Text.splitOn_of_not_mem (by simp [hsingle])

theorem splitsUpTo_keyed (hkey : IsBareKey key) (hw : WritesValue w v) :
    splitsUpTo ['='] (keyed key ++ w) = 1 := by
  obtain ⟨more, rest, hpieces⟩ := quotePieces_keyed hkey hw
  have hoccurs : Text.occursIn ['='] (keyed key ++ more) = true :=
    Text.occursIn_iff.mpr ⟨key ++ [' '], ' ' :: more, by simp [keyed]⟩
  rw [splitsUpTo, hpieces, occurrencesBefore, hoccurs]
  rfl

theorem splitMost_keyed (hkey : IsBareKey key) (w : List Char) :
    Text.splitMost ['='] 1 (keyed key ++ w) = [key ++ [' '], ' ' :: w] := by
  have hsign : '=' ∉ key ++ [' '] := by simp [hkey.not_mem (x := '=') (by decide)]
  obtain ⟨more, rest, hrest⟩ := Text.splitOnFrom_cons ['='] [] (' ' :: w)
  have hglue := Text.glue_splitOn ['='] (' ' :: w)
  rw [← Text.splitOn] at hrest
  have hline : keyed key ++ w = (key ++ [' ']) ++ '=' :: ' ' :: w := by simp [keyed]
  rw [hrest] at hglue
  rw [hline, Text.splitMost, Text.splitOn_append hsign, hrest]
  simpa using hglue

theorem line_keyed (hkey : IsBareKey key) (hw : WritesValue w v) :
    ∃ isTidy, Line.of (keyed key ++ w) = .ok ⟨key, w, isTidy⟩ := by
  have hspace : Text.isSpace ' ' = true := by decide
  have hvalue : ungrouped (' ' :: w) = ' ' :: w := rfl
  have hstart : isValueStart (' ' :: w) = true := rfl
  have hkeyTrim := hkey.isTight.trim_append (t := [' ']) (by simp [hspace])
  have hvalueTrim := (Text.trim_cons_of_isSpace hspace w).trans hw.isTight.trim_eq
  refine ⟨isTidyNumber (' ' :: w), ?_⟩
  rw [Line.of]
  simp only [splitsUpTo_keyed hkey hw, splitMost_keyed hkey]
  simp [settleValue, hvalue, hstart, Text.glue, hkeyTrim, hvalueTrim, bind, Except.bind, pure,
    Except.pure]

end Line

section Value

theorem goesOn_of_writes (h : WritesValue w v) : goesOn w = .ok false := by
  by_cases hlength : w.length < 3
  · rw [goesOn, if_pos hlength]
    rfl
  rw [goesOn, if_neg hlength]
  cases h with
  | text h =>
    cases h with
    | nil => simp at hlength
    | plain hc => simp [isOpenLong, isQuote, hc.2]
    | escape => simp [isOpenLong, isQuote]
  | yes => rfl

theorem readValue_of_writes (h : WritesValue w v) (isTidy : Bool) : readValue isTidy w = .ok v := by
  cases h with
  | text h ht =>
    have hquote : isQuote '"' = true := by decide
    have hread := readQuoted_of_writes (h.mono fun _ h => h.2) ht
    rw [readValue, readNested, if_pos hquote, hread]
    rfl
  | yes => cases isTidy <;> rfl

end Value

section Lines

variable {es fs : Entries} {lines : List (List Char)}

theorem assign_keyed (hkey : IsBareKey key) (hw : WritesValue w v)
    (hnew : .str (String.ofList key) ∉ es.keys) :
    assign readValue (keyed key ++ w) (.ofEntries es) =
      .ok (.ofEntries (es ++ [(.str (String.ofList key), v)]), none) := by
  obtain ⟨isTidy, hline⟩ := line_keyed hkey hw
  have hhas : es.has (String.ofList key) = false := by
    rw [Entries.has, Option.isSome_eq_false_iff, Option.isNone_iff_eq_none,
      Option.eq_none_iff_forall_ne_some]
    exact fun v hv => hnew (List.mem_map_of_mem (Entries.mem_of_get? hv))
  rw [assign, hline]
  simp only [bind, Except.bind, keyPath_of_isBareKey hkey, changeUnder, Value.ofEntries,
    goesOn_of_writes hw, readValue_of_writes hw, hhas, Entries.put_of_not_mem hnew]
  rfl

namespace Reading

def holding (es : Entries) : Reading := { start with root := .ofEntries es }

theorem begun_keyed (hkey : IsBareKey key) (hw : WritesValue w v)
    (hnew : .str (String.ofList key) ∉ es.keys) :
    (holding es).begun (keyed key ++ w) =
      .ok (holding (es ++ [(.str (String.ofList key), v)])) := by
  have hsign : (keyed key ++ w).contains '=' = true := by simp [keyed]
  have hassign := assign_keyed hkey hw hnew
  obtain ⟨c, rest, rfl⟩ := List.exists_cons_of_ne_nil hkey.nonempty
  have hfirst (x : Char) (hx : x ∈ signs) : c ≠ x := by
    rintro rfl
    exact hkey.not_mem hx List.mem_cons_self
  have hcons : keyed (c :: rest) ++ w = c :: (keyed rest ++ w) := rfl
  rw [hcons] at hsign hassign ⊢
  rw [begun, if_neg (hfirst '[' (by decide)), if_neg (hfirst '\x7b' (by decide)), if_pos hsign,
    change]
  simp only [holding, start, changeAt, hassign]
  rfl

theorem readLine_entry (h : WritesEntry line e) (hnew : e.1 ∉ es.keys) :
    (holding es).readLine line = .ok (holding (es ++ [e])) := by
  obtain ⟨hkey, hw⟩ := h
  rename_i key w v
  have hline : key ++ ' ' :: '=' :: ' ' :: w = keyed key ++ w := by simp [keyed]
  have htrim : Text.trim (keyed key ++ w) = keyed key ++ w := by
    rw [keyed, List.append_assoc]
    exact (hkey.isTight.append hw.isTight _).trim_eq
  rw [hline, ← begun_keyed hkey hw hnew]
  exact congrArg (holding es).begun htrim

/-- What the lines give is added in order. -/
theorem foldlM_readLine (es : Entries) (h : List.Forall₂ WritesEntry lines fs)
    (hkeys : (es ++ fs).keys.Nodup) :
    lines.foldlM readLine (holding es) = .ok (holding (es ++ fs)) := by
  induction h generalizing es with
  | nil =>
    rw [List.append_nil]
    rfl
  | @cons line e lines fs he _ ih =>
    have hnew : e.1 ∉ es.keys := by
      rw [Entries.keys, List.map_append, List.map_cons] at hkeys
      exact fun hmem => List.disjoint_of_nodup_append hkeys hmem List.mem_cons_self
    rw [List.foldlM_cons, readLine_entry he hnew]
    rw [← List.singleton_append, ← List.append_assoc] at hkeys
    simpa [bind, Except.bind] using ih _ hkeys

end Reading

theorem splitOn_unlines (h : ∀ line ∈ lines, '\n' ∉ line) :
    Text.splitOn ['\n'] (unlines lines) = lines ++ [[]] := by
  induction lines with
  | nil => exact Text.splitOn_of_not_mem List.not_mem_nil
  | cons line lines ih =>
    obtain ⟨hline, hlines⟩ := List.forall_mem_cons.mp h
    rw [unlines_cons, Text.splitOn_append hline, ih hlines]
    rfl

theorem Writes.not_mem (h : Writes IsPlain s t) : '\n' ∉ s := by
  have hletters : ∀ e ∈ shortEscapes, '\n' ≠ e.1 := by decide
  induction h with
  | nil => exact List.not_mem_nil
  | plain hc _ _ ih =>
    rw [List.mem_cons, not_or]
    refine ⟨?_, ih⟩
    rintro rfl
    exact absurd hc.1 (by decide)
  | escape hx _ ih => simp [hletters _ hx, ih]

theorem WritesEntry.not_mem (h : WritesEntry line e) : '\n' ∉ line := by
  obtain ⟨hkey, hw⟩ := h
  have hbreak := hkey.not_mem (x := '\n') (by decide)
  cases hw with
  | text h => simp [hbreak, h.not_mem]
  | yes => simp [hbreak]

theorem read_unlines (h : List.Forall₂ WritesEntry lines es) (hkeys : es.keys.Nodup) :
    read (unlines lines) = .ok (.ofEntries es) := by
  have hsplit : Text.splitOn ['\n'] (unlines lines) = lines ++ [[]] := by
    refine splitOn_unlines fun line hline => ?_
    obtain ⟨e, -, he⟩ := exists_right_of_forall₂ h hline
    exact he.not_mem
  have hfold : lines.foldlM Reading.readLine .start = .ok (Reading.holding es) :=
    Reading.foldlM_readLine [] h hkeys
  rw [read, Layout.layout_unlines h]
  simp only [bind, Except.bind, hsplit, List.foldlM_append, hfold]
  rfl

end Lines

section Written

variable {es : Entries} {text : String}

/-- A text of printable characters and white space that has no mark of a hexadecimal code, and is
not taken for one of several lines. -/
structure IsReadable (text : List Char) : Prop where
  chars : ∀ c ∈ text, Text.isPrintable c = true ∨ c ∈ ['\n', '\r', '\t']
  unmarked : Text.occursIn ['\\', 'x'] text = false
  short : ¬ OpensLong text

theorem isReadable_iff {text : List Char} : IsReadable text ↔
    (∀ c ∈ text, Text.isPrintable c = true ∨ c ∈ ['\n', '\r', '\t']) ∧
      Text.occursIn ['\\', 'x'] text = false ∧ ¬ OpensLong text :=
  ⟨fun h => ⟨h.chars, h.unmarked, h.short⟩, fun h => ⟨h.1, h.2.1, h.2.2⟩⟩

instance (text : List Char) : Decidable (IsReadable text) := decidable_of_iff _ isReadable_iff.symm

theorem writes_literalChar (h : Text.isPrintable c = true ∨ c ∈ ['\n', '\r', '\t']) :
    Writes IsPlain (Text.literalChar '"' c) [c] := by
  fun_cases Text.literalChar '"' c with
  | case1 hc => rcases hc with rfl | rfl <;> exact .escape (by decide) .nil
  | case2 _ hc | case3 _ _ hc | case4 _ _ _ hc =>
    subst hc
    exact .escape (by decide) .nil
  | case5 hc _ _ _ hprintable =>
    rw [not_or] at hc
    exact .plain ⟨hprintable, hc.1⟩ hc.2 .nil
  | case6 | case7 | case8 => simp_all

theorem writes_flatMap (h : ∀ c ∈ t, Text.isPrintable c = true ∨ c ∈ ['\n', '\r', '\t']) :
    Writes IsPlain (t.flatMap (Text.literalChar '"')) t := by
  induction t with
  | nil => exact .nil
  | cons c t ih =>
    obtain ⟨hc, ht⟩ := List.forall_mem_cons.mp h
    exact (writes_literalChar hc).append (ih ht)

theorem quoted_of_isReadable (h : IsReadable text.toList) :
    quoted (Text.literal text) = .ok (String.ofList ('"' :: (escaped text ++ ['"']))) := by
  have hpieces := splitOnFrom_of_continues (m := 'x') (by simp [shortEscapes])
    (continues_start (writes_flatMap h.chars)) h.unmarked
  rw [← Text.splitOn, ← escaped] at hpieces
  rw [quoted_literal, hpieces]
  refine congrArg Except.ok (String.toList_inj.mp ?_)
  simp

def IsReadableEntry (e : Scalar × Value) : Prop :=
  (∃ key : String, e.1 = .str key ∧ IsBareKey key.toList) ∧
    ((∃ text : String, e.2 = .str text ∧ IsReadable text.toList) ∨ e.2 = .bool true)

theorem IsReadableEntry.isFlat (h : IsReadableEntry e) : IsFlatEntry e := by
  obtain ⟨⟨key, hkey, -⟩, ⟨text, htext, -⟩ | hyes⟩ := h
  · exact ⟨⟨key, hkey⟩, .inl ⟨text, htext⟩⟩
  · exact ⟨⟨key, hkey⟩, .inr hyes⟩

theorem keyText_of_isBareKey {key : String} (h : IsBareKey key.toList) :
    keyText (.str key) = .ok key := by
  have hne : key ≠ "" := fun he => h.nonempty (by rw [he]; rfl)
  have hall : key.toList.all isBareNameChar = true := List.all_eq_true.mpr h.chars
  rw [keyText]
  exact if_pos ⟨hne, hall⟩

theorem valueText_of_isReadableEntry (h : IsReadableEntry e) :
    ∃ w, WritesValue w e.2 ∧ valueText e.2 = .ok (String.ofList w) := by
  obtain ⟨-, ⟨text, htext, hreadable⟩ | hyes⟩ := h
  · have hwrites := WritesValue.text (writes_flatMap hreadable.chars) hreadable.short
    rw [String.ofList_toList] at hwrites
    rw [htext]
    exact ⟨_, hwrites, quoted_of_isReadable hreadable⟩
  · rw [hyes]
    exact ⟨_, .yes, rfl⟩

theorem lineText_of_isReadableEntry (h : IsReadableEntry e) :
    ∃ line, WritesEntry line e ∧ lineText e = .ok (String.ofList (line ++ ['\n'])) := by
  obtain ⟨w, hw, htext⟩ := valueText_of_isReadableEntry h
  obtain ⟨⟨key, hkey, hbare⟩, -⟩ := h
  obtain ⟨k, v⟩ := e
  obtain rfl : k = .str key := hkey
  have hentry := WritesEntry.mk hbare hw
  rw [String.ofList_toList] at hentry
  refine ⟨_, hentry, ?_⟩
  rw [lineText, keyText_of_isBareKey hbare, htext]
  refine congrArg Except.ok (String.toList_inj.mp ?_)
  simp

def ReadsBack (es : Entries) : Prop :=
  ∃ text, write es = .ok text ∧ read text.toList = .ok (.ofEntries es)

theorem readsBack_of_readable (h : ∀ e ∈ es, IsReadableEntry e) (hkeys : es.keys.Nodup) :
    ReadsBack es := by
  have hlines : ∃ lines, List.Forall₂ WritesEntry lines es ∧
      es.mapM lineText = .ok (lines.map fun line => String.ofList (line ++ ['\n'])) := by
    clear hkeys
    induction es with
    | nil => exact ⟨[], .nil, rfl⟩
    | cons e es ih =>
      obtain ⟨he, hes⟩ := List.forall_mem_cons.mp h
      obtain ⟨line, hline, htext⟩ := lineText_of_isReadableEntry he
      obtain ⟨lines, hlines, htexts⟩ := ih hes
      refine ⟨line :: lines, .cons hline hlines, ?_⟩
      rw [List.mapM_cons, htext, htexts]
      rfl
  obtain ⟨lines, hlines, htexts⟩ := hlines
  have hunlines : (String.join (lines.map fun line => String.ofList (line ++ ['\n']))).toList =
      unlines lines := by
    simp [String.toList_join, unlines, List.flatMap_map]
  have hwrite := write_flat fun e he => (h e he).isFlat
  rw [htexts] at hwrite
  exact ⟨_, hwrite, hunlines ▸ read_unlines hlines hkeys⟩

end Written

end ApiBindings.Toml
