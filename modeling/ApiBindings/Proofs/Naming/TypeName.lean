import ApiBindings.Proofs.Naming.Unmarked
import ApiBindings.Proofs.Text.Pieces
import Mathlib

/-!
Type names that are identifiers. Main statement: a text of ASCII with a letter or a digit in it has
a type name, made of all its letters and digits in order, up to case.
-/

namespace ApiBindings.Naming

theorem flatten_words (cs : List Char) : (words cs).flatten = cs := by
  induction cs with
  | nil => rfl
  | cons c cs ih =>
    rw [words]
    cases hwords : words cs with
    | nil =>
      rw [hwords] at ih
      rw [← ih]
      rfl
    | cons word rest =>
      rw [hwords, List.flatten_cons] at ih
      dsimp only
      split_ifs
      · rw [List.flatten_cons, List.cons_append, ih]
      · rw [List.flatten_cons, List.flatten_cons, ih]
        rfl

theorem flatten_chunkPieces (chunk : List Char) : (chunkPieces chunk).flatten = chunk := by
  rw [chunkPieces]
  split_ifs
  · exact flatten_words chunk
  · exact List.flatten_singleton

theorem flatten_flatMap_chunkPieces (chunks : List (List Char)) :
    (chunks.flatMap chunkPieces).flatten = chunks.flatten := by
  induction chunks with
  | nil => rfl
  | cons chunk chunks ih =>
    rw [List.flatMap_cons, List.flatten_append, flatten_chunkPieces, ih, List.flatten_cons]

theorem lower_capitalize {piece : List Char} (h : ∀ c ∈ piece, c.toNat < 0x80) :
    (capitalize piece).map Char.toLower = piece.map Char.toLower := by
  cases piece with
  | nil => rfl
  | cons c cs =>
    rw [capitalize, Text.upperChar_ascii (h c List.mem_cons_self), List.singleton_append,
      List.map_cons, List.map_cons, Char.toLower_toUpper_eq_toLower]

theorem lower_flatMap_capitalize {pieces : List (List Char)}
    (h : ∀ c ∈ pieces.flatten, c.toNat < 0x80) :
    (pieces.flatMap capitalize).map Char.toLower = pieces.flatten.map Char.toLower := by
  induction pieces with
  | nil => rfl
  | cons piece pieces ih =>
    rw [List.flatten_cons, List.forall_mem_append] at h
    rw [List.flatMap_cons, List.flatten_cons, List.map_append, List.map_append,
      lower_capitalize h.1, ih h.2]

/-- A type name has the letters and digits of its text, in order and up to case. -/
theorem lower_pascalChars {s : List Char} (h : ∀ c ∈ s, c.toNat < 0x80) :
    (pascalChars s).map Char.toLower = (s.filter Char.isAlphanum).map Char.toLower := by
  have hpieces : ((Text.runs Text.isLetterOrDigit s).flatMap chunkPieces).flatten =
      s.filter Char.isAlphanum := by
    rw [flatten_flatMap_chunkPieces, Text.flatten_runs]
    exact List.filter_congr fun c hc => Text.isLetterOrDigit_ascii (h c hc)
  rw [pascalChars, lower_flatMap_capitalize, hpieces]
  intro c hc
  rw [hpieces] at hc
  exact h c (List.mem_of_mem_filter hc)

theorem isAlphanum_toLower (c : Char) : c.toLower.isAlphanum = c.isAlphanum := by
  by_cases hc : c.isUpper = true
  · have halpha : c.isAlpha = true := by simp [Char.isAlpha, hc]
    simp [Char.isAlphanum, halpha]
  · rw [Char.toLower_eq_of_not_isUpper hc]

theorem isAlphanum_of_mem_pascalChars {s : List Char} (h : ∀ c ∈ s, c.toNat < 0x80) :
    ∀ c ∈ pascalChars s, c.isAlphanum = true := by
  intro c hc
  have hlower : c.toLower ∈ (s.filter Char.isAlphanum).map Char.toLower :=
    lower_pascalChars h ▸ List.mem_map_of_mem hc
  obtain ⟨d, hd, heq⟩ := List.mem_map.mp hlower
  rw [← isAlphanum_toLower, ← heq, isAlphanum_toLower]
  exact (List.mem_filter.mp hd).2

theorem pascalChars_ne_nil {s : List Char} (h : ∀ c ∈ s, c.toNat < 0x80)
    (hletter : ∃ c ∈ s, c.isAlphanum = true) : pascalChars s ≠ [] := by
  intro hnil
  obtain ⟨c, hc, halnum⟩ := hletter
  have hlower := lower_pascalChars h
  rw [hnil, List.map_nil, eq_comm, List.map_eq_nil_iff] at hlower
  exact List.filter_eq_nil_iff.mp hlower c hc halnum

def IsTypeChar (c : Char) : Prop := c.isAlphanum = true ∨ c = '_'

instance (c : Char) : Decidable (IsTypeChar c) := inferInstanceAs (Decidable (_ ∨ _))

structure IsTypeName (name : String) : Prop where
  ne_empty : name ≠ ""
  chars : ∀ c ∈ name.toList, IsTypeChar c
  start : ∀ c ∈ name.toList.head?, c.isDigit = false

theorem IsTypeName.append {name suffix : String} (h : IsTypeName name)
    (hsuffix : ∀ c ∈ suffix.toList, IsTypeChar c) : IsTypeName (name ++ suffix) where
  ne_empty := fun he => h.ne_empty (String.append_eq_empty_iff.mp he).1
  chars := by
    rw [String.toList_append]
    exact List.forall_mem_append.mpr ⟨h.chars, hsuffix⟩
  start := by
    rw [String.toList_append, List.head?_append_of_ne_nil]
    · exact h.start
    · exact fun he => h.ne_empty (String.toList_eq_nil_iff.mp he)

theorem isTypeName_guardDigit {cs : List Char} (hne : cs ≠ [])
    (h : ∀ c ∈ cs, c.isAlphanum = true) : IsTypeName (String.ofList (guardDigit cs)) := by
  obtain ⟨c, rest, rfl⟩ := List.exists_cons_of_ne_nil hne
  have hdigit : Text.isDigit c = c.isDigit :=
    Text.isDigit_ascii (Text.toNat_lt_of_isAlphanum (h c List.mem_cons_self))
  have hguard : ∃ d ds, guardDigit (c :: rest) = d :: ds ∧ d.isDigit = false := by
    rw [guardDigit, hdigit]
    split_ifs with hc
    · exact ⟨'_', _, rfl, rfl⟩
    · exact ⟨c, rest, rfl, by simpa using hc⟩
  obtain ⟨d, ds, heq, hd⟩ := hguard
  refine ⟨?_, fun e he => ?_, ?_⟩
  · rw [heq, ne_eq, ← String.toList_eq_nil_iff, String.toList_ofList]
    exact List.cons_ne_nil d ds
  · rw [String.toList_ofList] at he
    exact (mem_guardDigit he).symm.imp (h e) id
  · rw [String.toList_ofList, heq]
    intro e he
    cases he
    exact hd

theorem pascalCase_eq_ok {text : String} (hne : pascalChars text.toList ≠ []) :
    pascalCase text = .ok (String.ofList (guardDigit (pascalChars text.toList))) := by
  have htext : text ≠ "" := by
    rintro rfl
    exact hne rfl
  rw [pascalCase, if_neg htext]
  split
  · rename_i hnil
    exact absurd hnil hne
  · rfl

theorem pascalCase_isTypeName {text : String} (hascii : ∀ c ∈ text.toList, c.toNat < 0x80)
    (hletter : ∃ c ∈ text.toList, c.isAlphanum = true) :
    ∃ name, pascalCase text = .ok name ∧ IsTypeName name := by
  have hne := pascalChars_ne_nil hascii hletter
  exact ⟨_, pascalCase_eq_ok hne,
    isTypeName_guardDigit hne (isAlphanum_of_mem_pascalChars hascii)⟩

end ApiBindings.Naming
