import ApiBindings.Config.File
import ApiBindings.Proofs.Document.Tree
import ApiBindings.Proofs.Files.Tree
import ApiBindings.Proofs.Toml.Reader

/-!
Configurations that are saved to a file. Main statement: a configuration with fields of their kinds
is loaded from its file again, whichever fields are given, if the table of the given ones is read as
it was written.
-/

namespace ApiBindings

namespace Config

def IsText (v : Value) : Prop := v = .null ∨ ∃ text, v = .str text

def IsFlag (v : Value) : Prop := ∃ b, v = .bool b

structure IsTyped (c : Config) : Prop where
  file : IsText c.file
  url : IsText c.url
  format : IsText c.format
  output : IsText c.output
  skipHooks : IsFlag c.skipHooks
  validation : IsFlag c.validation
  customImport : IsText c.customImport
  encodingMode : IsText c.encodingMode
  transformer : IsText c.transformer
  customGenerator : IsText c.customGenerator

variable {c : Config} {name : String} {v : Value}

def isGiven (v : Value) : Bool := !v.equals .null && !v.equals (.bool false)

theorem isGiven_str (text : String) : isGiven (.str text) = true := by
  simp [isGiven, Value.equals, Value.sameAs, Scalar.equals, Scalar.integer?]

theorem isGiven_bool (b : Bool) : isGiven (.bool b) = b := by
  cases b <;> simp [isGiven, Value.equals, Value.sameAs, Scalar.equals, Scalar.integer?]

theorem isGiven_null : isGiven .null = false := by
  simp [isGiven, Value.equals, Value.sameAs, Scalar.equals]

def table (c : Config) : Entries := c.fields.map fun f => (.str f.1, f.2)

theorem nodup_keys_table (c : Config) : c.table.keys.Nodup := by
  have hkeys : c.table.keys = names.map .str := rfl
  rw [hkeys]
  decide

theorem givenEntries_eq (c : Config) : c.givenEntries = c.table.filter fun e => isGiven e.2 := by
  rw [table, List.filter_map]
  rfl

theorem get?_givenEntries (c : Config) (name : String) :
    c.givenEntries.get? name = (c.table.get? name).filter isGiven := by
  rw [givenEntries_eq]
  exact Entries.get?_filter (nodup_keys_table c) isGiven name

theorem IsText.restored (h : IsText v) : ((some v).filter isGiven).getD .null = v := by
  obtain rfl | ⟨text, rfl⟩ := h
  · rw [Option.filter_some, isGiven_null]
    rfl
  · rw [Option.filter_some, isGiven_str]
    rfl

theorem IsFlag.restored (h : IsFlag v) : ((some v).filter isGiven).getD (.bool false) = v := by
  obtain ⟨b, rfl⟩ := h
  rw [Option.filter_some, isGiven_bool]
  cases b <;> rfl

/-- The fields that are left out get the values back that they were left out with. -/
theorem ofEntries_givenEntries (h : c.IsTyped) : ofEntries c.givenEntries = c.checked := by
  have hfile : c.table.get? "file" = some c.file := rfl
  have hurl : c.table.get? "url" = some c.url := rfl
  have hformat : c.table.get? "format" = some c.format := rfl
  have houtput : c.table.get? "output" = some c.output := rfl
  have hskipHooks : c.table.get? "skip_hooks" = some c.skipHooks := rfl
  have hvalidation : c.table.get? "validation" = some c.validation := rfl
  have hcustomImport : c.table.get? "custom_import" = some c.customImport := rfl
  have hencodingMode : c.table.get? "path_parameters_encoding_mode" = some c.encodingMode := rfl
  have htransformer : c.table.get? "transformer" = some c.transformer := rfl
  have hcustomGenerator : c.table.get? "custom_generator" = some c.customGenerator := rfl
  simp only [ofEntries, get?_givenEntries, hfile, hurl, hformat, houtput, hskipHooks, hvalidation,
    hcustomImport, hencodingMode, htransformer, hcustomGenerator, h.file.restored, h.url.restored,
    h.format.restored, h.output.restored, h.skipHooks.restored, h.validation.restored,
    h.customImport.restored, h.encodingMode.restored, h.transformer.restored,
    h.customGenerator.restored]

theorem mem_givenEntries {e : Scalar × Value} (he : e ∈ c.givenEntries) :
    (∃ name ∈ names, e.1 = .str name) ∧ ∃ f ∈ c.fields, f.2 = e.2 ∧ isGiven e.2 = true := by
  obtain ⟨f, hf, rfl⟩ := List.mem_map.mp he
  obtain ⟨hf, hgiven⟩ := List.mem_filter.mp hf
  have hnames : c.fields.map (·.1) = names := rfl
  exact ⟨⟨f.1, hnames ▸ List.mem_map_of_mem hf, rfl⟩, f, hf, rfl, hgiven⟩

theorem IsTyped.field (h : c.IsTyped) : ∀ f ∈ c.fields, IsText f.2 ∨ IsFlag f.2 := by
  simp [fields, h.file, h.url, h.format, h.output, h.skipHooks, h.validation, h.customImport,
    h.encodingMode, h.transformer, h.customGenerator]

theorem IsTyped.isFlat (h : c.IsTyped) : Toml.IsFlat c.givenEntries := by
  intro e he
  obtain ⟨⟨name, -, hname⟩, f, hf, hvalue, hgiven⟩ := mem_givenEntries he
  refine ⟨⟨name, hname⟩, ?_⟩
  obtain (hnull | htext) | ⟨b, hb⟩ := hvalue ▸ h.field f hf
  · rw [hnull, isGiven_null] at hgiven
    cases hgiven
  · exact .inl htext
  · rw [hb, isGiven_bool] at hgiven
    exact .inr (hgiven ▸ hb)

section Reading

theorem mapM_expectKey (es : Entries) :
    (es.map fun e => Value.scalar e.1).mapM Value.expectKey = .ok es.keys :=
  mapM_eq_ok.mpr (by induction es <;> simp_all [Entries.keys, Value.expectKey])

theorem unknownNames_of_names {keys : List Scalar} (h : ∀ k ∈ keys, ∃ name ∈ names, k = .str name) :
    unknownNames keys = .ok [] := by
  have hknown : ∀ k ∈ distinct keys, ∃ name ∈ names, k = .str name := by
    intro k hk
    obtain ⟨e, he, rfl⟩ := List.mem_map.mp hk
    have hgiven : ∀ e ∈ keys.map fun k => (k, Value.null),
        (∃ name ∈ names, e.1 = .str name) ∧ True := by simpa using h
    exact (Entries.forall_ofList (P := fun k => ∃ name ∈ names, k = .str name)
      (R := fun _ => True) hgiven e he).1
  have hnone : (distinct keys).filter (fun k => !names.any fun n => k.isKey (.str n)) = [] := by
    refine List.filter_eq_nil_iff.mpr fun k hk => ?_
    obtain ⟨name, hname, rfl⟩ := hknown k hk
    have hisName : names.any (fun n => Scalar.isKey (.str name) (.str n)) = true :=
      List.any_eq_true.mpr ⟨name, hname, Scalar.isKey_str.mpr rfl⟩
    rw [hisName]
    exact Bool.false_ne_true
  rw [unknownNames, hnone]
  rfl

theorem ofValue_ofEntries {es : Entries} (h : ∀ k ∈ es.keys, ∃ name ∈ names, k = .str name) :
    ofValue (.ofEntries es) = ofEntries es := by
  have hkeys := mapM_expectKey es
  rw [Value.ofEntries, ofValue]
  simp only [Value.elements, bind, Except.bind, hkeys, unknownNames_of_names h]
  rfl

theorem keys_givenEntries (c : Config) :
    ∀ k ∈ c.givenEntries.keys, ∃ name ∈ names, k = .str name := by
  intro k hk
  obtain ⟨e, he, rfl⟩ := List.mem_map.mp hk
  exact (mem_givenEntries he).1

theorem targetsOf_givenEntries (h : c.IsTyped) (hchecked : c.checked = .ok c) :
    targetsOf c.givenEntries = .ok [(onlyTarget, c)] := by
  have htargets : c.givenEntries.get? "targets" = none := by
    rw [get?_givenEntries]
    rfl
  rw [targetsOf, htargets, ofValue_ofEntries (keys_givenEntries c), ofEntries_givenEntries h,
    hchecked]
  rfl

end Reading

section Saved

variable {tree : FileTree} {path : String}

theorem load_save_of_readsBack (hchecked : c.checked = .ok c) (htyped : c.IsTyped)
    (htable : Toml.ReadsBack c.givenEntries)
    (hfile : ∀ text, ∃ saved, tree.write path text = .ok saved) :
    ∃ saved, c.save tree path = .ok saved ∧ Config.load saved path "" = .ok (some c) := by
  obtain ⟨text, hwrite, hread⟩ := htable
  obtain ⟨saved, hsaved⟩ := hfile text
  have hreturns : '\r' ∉ text.toList :=
    Toml.not_mem_write (by decide) htyped.isFlat hwrite (by decide)
  obtain ⟨hexists, hcontent⟩ :=
    FileTree.read_of_write hsaved hreturns (Toml.isEncodable_write htyped.isFlat hwrite)
  refine ⟨saved, ?_, ?_⟩
  · rw [save, fileText, hwrite]
    simp only [bind, Except.bind]
    rw [hsaved]
    rfl
  · have hentries : readEntries saved path = .ok c.givenEntries := by
      rw [readEntries, hcontent]
      simp only [hread]
      rfl
    have hlocate : locate saved path "" = path := by simp [locate]
    have htargets : targetsAt saved path "" = .ok (some [(onlyTarget, c)]) := by
      rw [targetsAt, hlocate, if_pos hexists, hentries]
      exact bind_eq_ok.mpr ⟨_, rfl,
        bind_eq_ok.mpr ⟨_, targetsOf_givenEntries htyped hchecked, rfl⟩⟩
    rw [load, htargets]
    rfl

/-- A configuration is loaded from the file that it is saved to. Of tables it is only assumed that
the one of the given fields is read as it was written, if it is flat. -/
theorem load_save (hchecked : c.checked = .ok c) (htyped : c.IsTyped)
    (htable : Toml.IsFlat c.givenEntries → Toml.ReadsBack c.givenEntries)
    (hfile : ∀ text, ∃ saved, tree.write path text = .ok saved) :
    ∃ saved, c.save tree path = .ok saved ∧ Config.load saved path "" = .ok (some c) :=
  load_save_of_readsBack hchecked htyped (htable htyped.isFlat) hfile

def texts (c : Config) : List String :=
  c.fields.filterMap fun f => match f.2 with
    | .str text => some text
    | _ => none

theorem mem_texts {f : String × Value} {text : String} (hf : f ∈ c.fields) (h : f.2 = .str text) :
    text ∈ c.texts :=
  List.mem_filterMap.mpr ⟨f, hf, by rw [h]⟩

def IsReadable (c : Config) : Prop := ∀ text ∈ c.texts, Toml.IsReadable text.toList

instance (c : Config) : Decidable c.IsReadable :=
  inferInstanceAs (Decidable (∀ text ∈ c.texts, Toml.IsReadable text.toList))

theorem isBareKey_of_mem_names {name : String} (h : name ∈ names) :
    Toml.IsBareKey name.toList := by
  have hnames : ∀ name ∈ names, name.toList ≠ [] ∧
      ∀ c ∈ name.toList, Toml.isBareNameChar c = true := by decide
  exact ⟨(hnames name h).1, (hnames name h).2⟩

theorem readsBack_givenEntries (htyped : c.IsTyped) (h : c.IsReadable) :
    Toml.ReadsBack c.givenEntries := by
  refine Toml.readsBack_of_readable (fun e he => ?_) ?_
  · obtain ⟨⟨name, hname, hkey⟩, f, hf, hvalue, -⟩ := mem_givenEntries he
    refine ⟨⟨name, hkey, isBareKey_of_mem_names hname⟩, ?_⟩
    refine (htyped.isFlat e he).2.imp_left fun ⟨text, htext⟩ => ⟨text, htext, ?_⟩
    exact h text (mem_texts hf (hvalue.trans htext))
  · rw [givenEntries_eq]
    exact (nodup_keys_table c).sublist (List.filter_sublist.map Prod.fst)

theorem load_save_of_isReadable (hchecked : c.checked = .ok c) (htyped : c.IsTyped)
    (hreadable : c.IsReadable) (hfile : ∀ text, ∃ saved, tree.write path text = .ok saved) :
    ∃ saved, c.save tree path = .ok saved ∧ Config.load saved path "" = .ok (some c) :=
  load_save_of_readsBack hchecked htyped (readsBack_givenEntries htyped hreadable) hfile

def petStore : Config :=
  { empty with
    url := .str "https://pets.example/openapi.json"
    format := .str ""
    output := .str "src\\pets.ts"
    skipHooks := .bool true
    encodingMode := .str "rfc3986" }

theorem petStore_isTyped : petStore.IsTyped where
  file := .inl rfl
  url := .inr ⟨_, rfl⟩
  format := .inr ⟨_, rfl⟩
  output := .inr ⟨_, rfl⟩
  skipHooks := ⟨_, rfl⟩
  validation := ⟨_, rfl⟩
  customImport := .inl rfl
  encodingMode := .inr ⟨_, rfl⟩
  transformer := .inl rfl
  customGenerator := .inl rfl

theorem petStore_isReadable : petStore.IsReadable := by decide

def emptyTree : FileTree := ⟨[], [], []⟩

theorem load_save_petStore : ∃ saved, petStore.save emptyTree "openapi.toml" = .ok saved ∧
    Config.load saved "openapi.toml" "" = .ok (some petStore) :=
  load_save rfl petStore_isTyped
    (fun _ => readsBack_givenEntries petStore_isTyped petStore_isReadable) fun _ => ⟨_, rfl⟩

end Saved

end Config

end ApiBindings
