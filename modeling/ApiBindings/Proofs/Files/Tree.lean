import ApiBindings.Files.Tree
import ApiBindings.Proofs.Success
import ApiBindings.Proofs.Text.Surrogate
import Mathlib.Tactic.SplitIfs

/-!
What writing a file changes. Main statements: the text is read from the file then, every other file
is what it was, and of several texts that are written to a file the last one counts.
-/

namespace ApiBindings.Path

variable {path : String}

theorem misuse?_eq_none_iff :
    misuse? path = none ↔ (∀ c ∈ path.toList, isNameable c = true) ∧ '\x00' ∉ path.toList := by
  rw [misuse?, ← List.all_eq_true, ← List.contains_iff_mem]
  cases path.toList.all isNameable with
  | false => simp
  | true => cases path.toList.contains '\x00' <;> simp

theorem directory_subset (path : String) : (directory path).toList ⊆ path.toList := by
  intro c hc
  have hbehind : c ∈ path.toList.reverse.dropWhile (· != '/') := by
    rw [directory, String.toList_ofList] at hc
    split_ifs at hc
    · exact List.mem_reverse.mp hc
    · exact (List.dropWhile_sublist _).subset (List.mem_reverse.mp hc)
  exact List.mem_reverse.mp ((List.dropWhile_sublist _).subset hbehind)

theorem misuse?_directory (h : misuse? path = none) : misuse? (directory path) = none := by
  have hsubset := directory_subset path
  obtain ⟨hnames, hzero⟩ := misuse?_eq_none_iff.mp h
  exact misuse?_eq_none_iff.mpr
    ⟨fun c hc => hnames c (hsubset hc), fun hmem => hzero (hsubset hmem)⟩

end ApiBindings.Path

namespace ApiBindings.FileTree

variable {t u : FileTree} {here place file : Place} {path text : String} {parts : List String}

theorem lookup_cons_eq (f : Place × String) (files : List (Place × String)) (other : Place) :
    (f :: files).lookup other = if other = f.1 then some f.2 else files.lookup other := by
  rw [List.lookup_cons]
  by_cases h : other = f.1
  · rw [if_pos h, beq_iff_eq.mpr h]
  · rw [if_neg h, beq_eq_false_iff_ne.mpr h]

theorem lookup_putFile (place : Place) (text : String) (files : List (Place × String))
    (other : Place) : (putFile place text files).lookup other =
      if other = place then some text else files.lookup other := by
  induction files with
  | nil => rw [putFile, lookup_cons_eq]
  | cons f rest ih =>
    rw [putFile]
    by_cases hf : f.1 = place
    · rw [if_pos hf, lookup_cons_eq, lookup_cons_eq, hf]
      split_ifs <;> rfl
    · rw [if_neg hf, lookup_cons_eq, lookup_cons_eq, ih]
      by_cases hother : other = f.1
      · rw [if_pos hother, if_neg (hother ▸ hf), if_pos hother]
      · rw [if_neg hother, if_neg hother]

theorem exists_mem_putFile {f : Place × String} {files : List (Place × String)} (h : f ∈ files)
    (place : Place) (text : String) : ∃ g ∈ putFile place text files, g.1 = f.1 := by
  induction files with
  | nil => cases h
  | cons g rest ih =>
    rw [putFile]
    rcases List.mem_cons.mp h with rfl | h
    · split_ifs with heq
      · exact ⟨_, List.mem_cons_self, heq.symm⟩
      · exact ⟨f, List.mem_cons_self, rfl⟩
    · split_ifs
      · exact ⟨f, List.mem_cons_of_mem _ h, rfl⟩
      · obtain ⟨g', hg', heq⟩ := ih h
        exact ⟨g', List.mem_cons_of_mem _ hg', heq⟩

theorem eq_or_mem_of_mem_putFile {f : Place × String} {files : List (Place × String)}
    (h : f ∈ putFile place text files) : f = (place, text) ∨ f ∈ files := by
  induction files with
  | nil => exact .inl (List.mem_singleton.mp h)
  | cons g rest ih =>
    rw [putFile] at h
    split_ifs at h
    · exact (List.mem_cons.mp h).imp_right (List.mem_cons_of_mem g)
    · rcases List.mem_cons.mp h with rfl | h
      · exact .inr List.mem_cons_self
      · exact (ih h).imp_right (List.mem_cons_of_mem g)

theorem putFile_putFile (place : Place) (first text : String) (files : List (Place × String)) :
    putFile place text (putFile place first files) = putFile place text files := by
  induction files with
  | nil => simp [putFile]
  | cons f rest ih =>
    by_cases hf : f.1 = place
    · simp [putFile, hf]
    · simp [putFile, hf, ih]

def withFile (t : FileTree) (place : Place) (text : String) : FileTree :=
  { t with files := putFile place text t.files }

theorem file?_withFile (t : FileTree) (place : Place) (text : String) (other : Place) :
    (t.withFile place text).file? other = if other = place then some text else t.file? other :=
  lookup_putFile place text t.files other

theorem isDirectory_withFile (h : t.isDirectory here = true) (place : Place) (text : String) :
    (t.withFile place text).isDirectory here = true := by
  rw [isDirectory, Bool.or_eq_true] at h ⊢
  refine h.imp_right fun h => ?_
  rw [List.any_eq_true] at h ⊢
  obtain ⟨f, hf, hbelow⟩ := h
  obtain ⟨g, hg, heq⟩ := exists_mem_putFile hf place text
  exact ⟨g, hg, heq ▸ hbelow⟩

theorem not_isDirectory_withFile (h : t.isDirectory place = false) (text : String) :
    (t.withFile place text).isDirectory place = false := by
  rw [isDirectory, Bool.or_eq_false_iff] at h ⊢
  refine ⟨h.1, List.any_eq_false.mpr fun f hf => ?_⟩
  rcases eq_or_mem_of_mem_putFile hf with rfl | hf
  · simp
  · exact List.any_eq_false.mp h.2 f hf

/-- A way along directories leads where it led before a file was written where none of them is. -/
theorem walk_withFile (h : t.walk here parts = .ok place) (hfile : t.isDirectory file = false)
    (text : String) : (t.withFile file text).walk here parts = .ok place := by
  induction parts generalizing here with
  | nil => exact h
  | cons part rest ih =>
    rw [walk] at h ⊢
    by_cases hhere : t.isDirectory here = true
    · have hne : here ≠ file := by
        rintro rfl
        rw [hhere] at hfile
        cases hfile
      rw [file?_withFile, if_neg hne, isDirectory_withFile hhere]
      rw [hhere] at h
      simp only [Bool.not_true, Bool.false_eq_true, if_false] at h ⊢
      split_ifs at h ⊢
      · exact ih h
      · exact ih h
      · exact ih h
    · rw [if_pos (show (!t.isDirectory here) = true by simpa using hhere)] at h
      split_ifs at h

theorem locate_withFile (h : t.locate path = .ok place) (hfile : t.isDirectory file = false)
    (text : String) : (t.withFile file text).locate path = .ok place := by
  unfold locate at h ⊢
  split_ifs at h ⊢
  exact walk_withFile h hfile text

theorem locate_of_locateNew (h : t.locateNew path = .ok place) : t.locate path = .ok place := by
  unfold locateNew at h
  split at h
  · rename_i hlocated
    rw [hlocated, h]
  · split_ifs at h
  · cases h

theorem write_ok (h : t.write path text = .ok u) : ∃ place, t.locate path = .ok place ∧
    t.isDirectory place = false ∧ u = t.withFile place text := by
  obtain ⟨place, hplace, h⟩ := bind_eq_ok.mp h
  split_ifs at h with hdirectory
  exact ⟨place, locate_of_locateNew hplace, by simpa using hdirectory, (pure_eq_ok.mp h).symm⟩

theorem locateNew_of_locate (h : t.locate path = .ok place) : t.locateNew path = .ok place := by
  rw [locateNew, h]

theorem write_of_locate (h : t.locate path = .ok place) (hplace : t.isDirectory place = false)
    (text : String) : t.write path text = .ok (t.withFile place text) := by
  refine bind_eq_ok.mpr ⟨place, locateNew_of_locate h, ?_⟩
  rw [if_neg (by simp [hplace])]
  rfl

/-- A file that was opened for one text takes any other, which replaces the first one. -/
theorem write_of_write {first : String} (h : t.write path first = .ok u) (text : String) :
    ∃ v, t.write path text = .ok v ∧ u.write path text = .ok v := by
  obtain ⟨place, hplace, hdirectory, rfl⟩ := write_ok h
  refine ⟨t.withFile place text, write_of_locate hplace hdirectory text, ?_⟩
  have hagain := write_of_locate (locate_withFile hplace hdirectory first)
    (not_isDirectory_withFile hdirectory first) text
  rw [hagain, withFile, withFile, withFile, putFile_putFile]

theorem withLineFeeds_of_not_mem {s : List Char} (h : '\r' ∉ s) : withLineFeeds s = s := by
  fun_induction withLineFeeds s with
  | case1 => rfl
  | case2 => simp at h
  | case3 => simp at h
  | case4 c rest _ _ ih => rw [ih fun hr => h (List.mem_cons_of_mem c hr)]

/-- A text is read where it was written. If it can be encoded and has no carriage returns, it is
the same. -/
theorem read_of_write (h : t.write path text = .ok u) (hreturns : '\r' ∉ text.toList)
    (hencodable : Text.isEncodable text = true) :
    u.exists? path = true ∧ u.read path = .ok text := by
  obtain ⟨place, hplace, hdirectory, rfl⟩ := write_ok h
  have hlocated := locate_withFile hplace hdirectory text
  have hfile : (t.withFile place text).file? place = some text := by
    rw [file?_withFile, if_pos rfl]
  constructor
  · rw [exists?, hlocated]
    simp [isKnown, hfile]
  · refine bind_eq_ok.mpr ⟨place, hlocated, ?_⟩
    rw [hfile]
    refine congrArg Except.ok ?_
    rw [withLineFeeds_of_not_mem hreturns, String.ofList_toList,
      Text.receivedText_of_isEncodable hencodable]

theorem makeWay_ok (h : t.makeWay here parts = .ok u) : u.files = t.files := by
  induction parts generalizing t here with
  | nil =>
    rw [makeWay] at h
    split_ifs at h
    cases h
    rfl
  | cons part rest ih =>
    rw [makeWay] at h
    dsimp only at h
    split_ifs at h
    · exact ih h
    · exact ih h
    · exact ih h
    · exact (ih h).trans rfl

def prepared (t : FileTree) (path : String) : Except FileProblem FileTree :=
  if Path.directory path = "" then .ok t else t.makeDirectories (Path.directory path)

def replace (t : FileTree) (path text : String) : Except FileProblem FileTree := do
  (← t.prepared path).write path text

theorem write_of_replace {first : String} (h : t.replace path first = .ok u) (text : String) :
    ∃ v, t.replace path text = .ok v ∧ u.write path text = .ok v := by
  obtain ⟨made, hmade, h⟩ := bind_eq_ok.mp h
  obtain ⟨v, hv, hagain⟩ := write_of_write h text
  exact ⟨v, bind_eq_ok.mpr ⟨made, hmade, hv⟩, hagain⟩

def Replaced (path text : String) (before after : FileTree) : Prop :=
  ∃ place, after.locate path = .ok place ∧ after.file? place = some text ∧
    ∀ other, other ≠ place → after.file? other = before.file? other

theorem replaced_of_replace (h : t.replace path text = .ok u) : Replaced path text t u := by
  obtain ⟨made, hmade, h⟩ := bind_eq_ok.mp h
  have hfiles : made.files = t.files := by
    unfold prepared at hmade
    split_ifs at hmade
    · cases hmade
      rfl
    · exact makeWay_ok hmade
  obtain ⟨place, hplace, hdirectory, rfl⟩ := write_ok h
  refine ⟨place, locate_withFile hplace hdirectory text, ?_, fun other hother => ?_⟩
  · rw [file?_withFile, if_pos rfl]
  · rw [file?_withFile, if_neg hother, file?, hfiles, file?]

end ApiBindings.FileTree
