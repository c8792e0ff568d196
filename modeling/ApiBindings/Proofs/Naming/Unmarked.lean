import ApiBindings.Naming.DocComment
import ApiBindings.Naming.Identifier
import ApiBindings.Naming.PascalCase
import ApiBindings.Proofs.Document.Entries
import ApiBindings.Proofs.Naming.Placeholders
import ApiBindings.Proofs.Success
import ApiBindings.Proofs.Text.Marker
import Mathlib.Data.List.TakeWhile

/-!
Names, keys, comments and routes bring no marker into a text. Main statement: a name holds no
character that ends a marker, and a comment holds no more than its description.
-/

namespace ApiBindings

namespace Text

theorem not_isSeparator_of_mem_pieces {isSeparator : Char → Bool} {s piece : List Char}
    (hpiece : piece ∈ pieces isSeparator s) : ∀ c ∈ piece, isSeparator c = false := by
  induction s generalizing piece with
  | nil =>
    rw [List.mem_singleton.mp hpiece]
    exact List.forall_mem_nil _
  | cons x xs ih =>
    rw [pieces] at hpiece
    split_ifs at hpiece with hx
    · rcases List.mem_cons.mp hpiece with rfl | hpiece
      · exact List.forall_mem_nil _
      · exact ih hpiece
    · have hx : isSeparator x = false := by simpa using hx
      split at hpiece
      · rw [List.mem_singleton.mp hpiece]
        exact List.forall_mem_singleton.mpr hx
      · rename_i first rest hrest
        rw [hrest] at ih
        rcases List.mem_cons.mp hpiece with rfl | hpiece
        · exact List.forall_mem_cons.mpr ⟨hx, ih List.mem_cons_self⟩
        · exact ih (List.mem_cons_of_mem first hpiece)

theorem of_mem_runs {keep : Char → Bool} {s run : List Char} (h : run ∈ runs keep s) :
    ∀ c ∈ run, keep c = true := by
  have hpiece : run ∈ pieces (fun c => !keep c) s := List.mem_of_mem_filter h
  intro c hc
  simpa using not_isSeparator_of_mem_pieces hpiece c hc

theorem mem_of_mem_erase {p s : List Char} {c : Char} (h : c ∈ erase p s) : c ∈ s := by
  fun_induction erase p s with
  | case1 => exact h
  | case2 => exact h
  | case3 x xs _ r hr ih =>
    rw [after?_eq_some_iff.mp hr]
    exact List.mem_append_right p (ih h)
  | case4 x xs _ _ ih =>
    rcases List.mem_cons.mp h with rfl | h
    · exact List.mem_cons_self
    · exact List.mem_cons_of_mem x (ih h)

theorem stopless_of_word {cs : List Char} (h : ∀ c ∈ cs, isWordChar c = true) :
    Stopless (String.ofList cs) := by
  have hstops : ∀ d ∈ stops, isWordChar d = false := by decide
  intro d hd hmem
  rw [String.toList_ofList] at hmem
  have hword := h d hmem
  rw [hstops d hd] at hword
  cases hword

theorem eq_toNat_of_ofNat {n : Nat} {c : Char} (h : Char.ofNat n = c) (hc : c.toNat ≠ 0) :
    n = c.toNat := by
  by_cases hvalid : n.isValidChar
  · rw [Char.ofNat, dif_pos hvalid] at h
    rw [← h]
    rfl
  · rw [Char.ofNat, dif_neg hvalid] at h
    exact absurd (congrArg Char.toNat h.symm) hc

theorem upperChar_not_stop {c : Char} (hc : c ∉ stops) : ∀ d ∈ upperChar c, d ∉ stops := by
  intro d hd hstop
  have hsmall : d.toNat ≠ 0 := by
    clear hd
    revert d
    decide
  -- letters of ASCII, capitals of several characters, runs of letters with one capital each
  unfold upperChar at hd
  split at hd
  · rename_i hascii
    have hcapitals : ∀ n < 0x80, Char.ofNat n ∉ stops → (Char.ofNat n).toUpper ∉ stops := by decide
    rw [← Char.ofNat_toNat c] at hc hd
    exact hcapitals _ hascii hc (List.mem_singleton.mp hd ▸ hstop)
  · split at hd
    · rename_i capital hcapital
      have hlong : ∀ e ∈ longCapitals, ∀ n ∈ e.2, Char.ofNat n ∉ stops := by decide
      obtain ⟨before, after, hsplit, -⟩ := List.lookup_eq_some_iff.mp hcapital
      have hmem : (c.toNat, capital) ∈ longCapitals := by
        rw [hsplit]
        exact List.mem_append_right before List.mem_cons_self
      obtain ⟨n, hn, rfl⟩ := List.mem_map.mp hd
      exact hlong _ hmem n hn hstop
    · split at hd
      · rename_i r hr
        have hruns : ∀ r ∈ caseRuns, ∀ d ∈ stops,
            ¬ (r.first + r.shift ≤ d.toNat ∧ d.toNat ≤ r.last + r.shift) := by
          decide +kernel
        have hrange := List.find?_some hr
        simp only [Bool.and_eq_true, decide_eq_true_eq] at hrange
        have hcode : ((c.toNat : Int) + r.shift).toNat = d.toNat :=
          eq_toNat_of_ofNat (List.mem_singleton.mp hd).symm hsmall
        exact hruns r (List.mem_of_find?_eq_some hr) d hstop (by omega)
      · rw [List.mem_singleton.mp hd] at hstop
        exact hc hstop

end Text

namespace Naming

open Text (markers stops Occurs Quiet Stopless Clear isLetterOrDigit isWordChar)

theorem mem_of_mem_words {chunk word : List Char} (hword : word ∈ words chunk) :
    ∀ c ∈ word, c ∈ chunk := by
  induction chunk generalizing word with
  | nil => cases hword
  | cons x xs ih =>
    rw [words] at hword
    split at hword
    · rw [List.mem_singleton.mp hword]
      simp
    · rename_i first rest hrest
      rw [hrest] at ih
      have hfirst : ∀ c ∈ first, c ∈ x :: xs := fun c hc =>
        List.mem_cons_of_mem x (ih List.mem_cons_self c hc)
      have hrest : ∀ w ∈ rest, ∀ c ∈ w, c ∈ x :: xs := fun w hw c hc =>
        List.mem_cons_of_mem x (ih (List.mem_cons_of_mem first hw) c hc)
      split_ifs at hword
      · rcases List.mem_cons.mp hword with rfl | hword
        · exact List.forall_mem_cons.mpr ⟨List.mem_cons_self, hfirst⟩
        · exact hrest word hword
      · rcases List.mem_cons.mp hword with rfl | hword
        · exact List.forall_mem_singleton.mpr List.mem_cons_self
        · rcases List.mem_cons.mp hword with rfl | hword
          · exact hfirst
          · exact hrest word hword

theorem mem_of_mem_chunkPieces {chunk piece : List Char} (hpiece : piece ∈ chunkPieces chunk) :
    ∀ c ∈ piece, c ∈ chunk := by
  unfold chunkPieces at hpiece
  split_ifs at hpiece
  · exact mem_of_mem_words hpiece
  · rw [List.mem_singleton.mp hpiece]
    exact fun _ hc => hc

theorem stopless_pascalChars (s : List Char) : ∀ c ∈ pascalChars s, c ∉ stops := by
  have hstops : ∀ d ∈ stops, isLetterOrDigit d = false := by decide
  intro c hc
  obtain ⟨piece, hpiece, hc⟩ := List.mem_flatMap.mp hc
  obtain ⟨run, hrun, hpiece⟩ := List.mem_flatMap.mp hpiece
  have hkept : ∀ d ∈ piece, d ∉ stops := by
    intro d hd hstop
    have hletter := Text.of_mem_runs hrun d (mem_of_mem_chunkPieces hpiece d hd)
    rw [hstops d hstop] at hletter
    cases hletter
  cases piece with
  | nil => cases hc
  | cons x xs =>
    rcases List.mem_append.mp hc with hc | hc
    · exact Text.upperChar_not_stop (hkept x List.mem_cons_self) c hc
    · exact hkept c (List.mem_cons_of_mem x hc)

theorem mem_guardDigit {cs : List Char} {c : Char} (h : c ∈ guardDigit cs) : c = '_' ∨ c ∈ cs := by
  unfold guardDigit at h
  split at h
  · cases h
  · split_ifs at h
    · exact List.mem_cons.mp h
    · exact .inr h

theorem stopless_pascalCase {text name : String} (h : pascalCase text = .ok name) :
    Stopless name := by
  unfold pascalCase at h
  split_ifs at h
  · cases h
    decide
  · have hpascal := stopless_pascalChars text.toList
    split at h
    · cases h
    · cases h
      have hunderscore : '_' ∉ stops := by decide
      intro d hd hmem
      rw [String.toList_ofList] at hmem
      rcases mem_guardDigit hmem with rfl | hmem
      · exact hunderscore hd
      · exact hpascal d hmem hd

theorem stopless_pascalCaseOf {v : Value} {name : String} (h : pascalCaseOf v = .ok name) :
    Stopless name := by
  unfold pascalCaseOf at h
  split_ifs at h
  · split at h
    · exact stopless_pascalCase h
    · cases h
  · cases h
    decide

theorem stopless_of_mem_placeholders {route name : String} (h : name ∈ placeholders route) :
    Stopless name := by
  obtain ⟨chars, hchars, rfl⟩ := List.mem_map.mp h
  exact Text.stopless_of_word (isWord_of_mem hchars).2

theorem cutLast?_ok {route before name : String} (h : cutLast? route = some (before, name)) :
    Occurs before route ∧ name ≠ "" ∧ Stopless name := by
  obtain ⟨⟨chars, word⟩, hcut, heq⟩ := Option.map_eq_some_iff.mp h
  cases heq
  obtain ⟨ending, -, hchars, hne, hword⟩ := cutClosing?_eq_some hcut
  refine ⟨?_, fun hempty => hne ?_, Text.stopless_of_word hword⟩
  · rw [Occurs, String.toList_ofList, hchars]
    exact (List.prefix_append chars _).isInfix
  · rw [← String.toList_ofList (l := word), hempty]
    rfl

theorem isIdentifierPart_of_isBare {cs : List Char} (h : isBare cs = true) :
    ∀ c ∈ cs, isIdentifierPart c = true := by
  cases cs with
  | nil => exact List.forall_mem_nil _
  | cons x xs =>
    rw [isBare, Bool.and_eq_true, List.all_eq_true] at h
    refine List.forall_mem_cons.mpr ⟨?_, h.2⟩
    have hstart := h.1
    simp only [isIdentifierStart, isIdentifierPart, Char.isAlphanum, Bool.or_eq_true] at hstart ⊢
    tauto

theorem mem_dropFinal {x c : Char} {cs : List Char} (h : c ∈ cs) :
    c ∈ Text.dropFinal x cs ∨ c = x := by
  unfold Text.dropFinal
  split_ifs with hlast
  · obtain ⟨front, rfl⟩ := List.getLast?_eq_some_iff.mp hlast
    simpa using h
  · exact .inl h

theorem stopless_of_isIdentifier {name : String} (h : isIdentifier name = true) :
    Stopless name := by
  have hparts : ∀ d ∈ stops, isIdentifierPart d = false := by decide
  have hbreak : '\n' ∉ stops := by decide
  intro d hd hmem
  rcases mem_dropFinal (x := '\n') hmem with hkept | rfl
  · have hpart := isIdentifierPart_of_isBare h d hkept
    rw [hparts d hd] at hpart
    cases hpart
  · exact hbreak hd

section Quiet

variable {m : String} (hm : m ∈ markers)
include hm

theorem not_occurs_interpolated {route : String} (h : ¬ Occurs m route) :
    ¬ Occurs m (interpolated route) := by
  have hapart : ∀ m ∈ markers,
      '$' ∉ m.toList ∧ '\x7b' ∉ m.toList ∧ ¬ m.toList <:+: ['$', '\x7b'] := by
    decide
  obtain ⟨hdollar, hbrace, hescape⟩ := hapart m hm
  rw [Occurs, interpolated, String.toList_ofList, Text.expand]
  refine Text.not_infix_flatMap hdollar (fun c _ => ?_) h
  split_ifs with hc
  · refine .inr ⟨['\x7b'], rfl, hescape, fun t r hcut hne ht => ?_⟩
    obtain ⟨d, hd⟩ := List.exists_mem_of_ne_nil t hne
    have hmem : d ∈ m.toList := hcut ▸ List.mem_append_left r hd
    exact absurd (List.mem_singleton.mp (ht.subset hd) ▸ hmem) hbrace
  · exact .inl rfl

theorem quiet_docComment {description : String} (h : ¬ Occurs m description) (tab : Nat) :
    Quiet m (docComment description tab) := by
  unfold docComment
  refine .ite (fun _ => .empty m) fun _ => ?_
  have hindent : Stopless (String.ofList (List.replicate tab ' ')) := by
    have hspace : ' ' ∉ stops := by decide
    intro c hc hmem
    rw [String.toList_ofList] at hmem
    exact hspace (List.eq_of_mem_replicate hmem ▸ hc)
  have hline : ∀ line ∈ (Text.splitAt '\n' description).map
      (fun line => String.ofList (List.replicate tab ' ') ++ " * " ++ line), Quiet m line := by
    refine List.forall_mem_map.mpr fun line hmem => ?_
    have hstar : Text.Fence m " * " := Text.fence_given hm (by decide)
    have hclear : ¬ Occurs m line := fun ho => h (ho.trans (Text.occurs_of_mem_splitAt hmem))
    exact (hstar.of_quiet (hindent.quiet hm)).append hclear
  have hbreak : Quiet m "\n" := Text.quiet_given hm (by decide)
  have hopen : Quiet m "/**\n" := Text.quiet_given hm (by decide)
  have hclose : Quiet m " */\n" := Text.quiet_given hm (by decide)
  exact ((((hopen.append (.joinWith hbreak hline)).append hbreak).append
    (hindent.quiet hm)).append hclose).append (hindent.quiet hm)

theorem quiet_docCommentOf {description : Value} {tab : Nat} {comment : String}
    (h : docCommentOf description tab = .ok comment)
    (hclear : ∀ text, description = .str text → ¬ Occurs m text) : Quiet m comment := by
  unfold docCommentOf at h
  split_ifs at h
  · obtain ⟨text, htext, h⟩ := bind_eq_ok.mp h
    cases pure_eq_ok.mp h
    exact quiet_docComment hm (hclear text (Value.expectText_ok htext)) tab
  · cases h
    exact .empty m

theorem quiet_propertyKey {name : String} (h : Clear m name) : Quiet m (propertyKey name) := by
  unfold propertyKey
  refine .ite (fun hbare => ?_) fun _ => Text.quiet_quote hm h
  exact (stopless_of_isIdentifier hbare).quiet hm

end Quiet

end Naming

end ApiBindings
