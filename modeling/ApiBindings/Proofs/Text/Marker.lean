import ApiBindings.Proofs.Text.Occurrence
import ApiBindings.Proofs.Text.Surrogate
import ApiBindings.Text.Literal
import ApiBindings.Text.Quoted

/-!
The texts that show which helpers a file needs. Main statement: a text that holds none of them holds
none when it is quoted or written as a literal, unless the end of an escape begins one.
-/

namespace ApiBindings.Text

def markers : List String :=
  ["Require<", "useQuery<", "useMutation<", "useInvalidateQuery(", "encode`"]

def stops : List Char := ['<', '(', '`']

def Stopless (x : String) : Prop := ∀ c ∈ stops, c ∉ x.toList

instance (x : String) : Decidable (Stopless x) :=
  inferInstanceAs (Decidable (∀ c ∈ stops, c ∉ x.toList))

variable {m x y f : String} {ms : List String}

/-- Texts that are given by their characters as well: it takes long to take a literal apart. -/
class Spelled (ms : List String) where
  spelling : List (List Char)
  spells : spelling.map String.ofList = ms

instance : Spelled markers where
  spelling := [['R', 'e', 'q', 'u', 'i', 'r', 'e', '<'],
    ['u', 's', 'e', 'Q', 'u', 'e', 'r', 'y', '<'],
    ['u', 's', 'e', 'M', 'u', 't', 'a', 't', 'i', 'o', 'n', '<'],
    ['u', 's', 'e', 'I', 'n', 'v', 'a', 'l', 'i', 'd', 'a', 't', 'e', 'Q', 'u', 'e', 'r', 'y', '('],
    ['e', 'n', 'c', 'o', 'd', 'e', '`']]
  spells := rfl

instance (priority := low) (ms : List String) : Spelled ms where
  spelling := ms.map String.toList
  spells := by simp

section Given

variable [Spelled ms] {cs : List Char} (hm : m ∈ ms)
include hm

theorem toList_mem_spelling : m.toList ∈ Spelled.spelling ms := by
  have hspells : (Spelled.spelling ms).map String.ofList = ms := Spelled.spells
  rw [← hspells] at hm
  obtain ⟨w, hw, rfl⟩ := List.mem_map.mp hm
  rwa [String.toList_ofList]

theorem quiet_given (h : ∀ w ∈ Spelled.spelling ms, isQuiet w cs = true) :
    Quiet m (String.ofList cs) := by
  refine quiet_of_isQuiet ?_
  rw [String.toList_ofList]
  exact h _ (toList_mem_spelling hm)

theorem fence_given (h : ∀ w ∈ Spelled.spelling ms, isFence w cs = true) :
    Fence m (String.ofList cs) := by
  refine fence_of_isFence ?_
  rw [String.toList_ofList]
  exact h _ (toList_mem_spelling hm)

end Given

variable (hm : m ∈ markers)

section Markers

include hm

theorem marker_ne_empty : m ≠ "" := by
  rintro rfl
  revert hm
  decide

theorem not_occurs_after {c : Char} (hc : c ∈ stops) (hx : x.toList = [c]) (hy : ¬ Occurs m y) :
    ¬ Occurs m (x ++ y) := by
  have hheads : ∀ m ∈ markers, ∀ c ∈ stops, m.toList.head? ≠ some c := by decide
  exact not_occurs_of_head hx (hheads m hm c hc) (marker_ne_empty hm) hy

theorem Stopless.quiet (h : Stopless x) : Quiet m x := by
  have hlast : ∃ c ∈ stops, m.toList.getLast? = some c := by
    revert m
    decide
  obtain ⟨c, hc, hlast⟩ := hlast
  exact quiet_of_not_mem hlast (h c hc)

end Markers

theorem Stopless.append (hx : Stopless x) (hy : Stopless y) : Stopless (x ++ y) := by
  intro c hc hmem
  rw [String.toList_append, List.mem_append] at hmem
  exact hmem.elim (hx c hc) (hy c hc)

theorem Stopless.joinWith {sep : String} {xs : List String} (hsep : Stopless sep)
    (h : ∀ x ∈ xs, Stopless x) : Stopless (joinWith sep xs) := by
  induction xs with
  | nil => exact fun _ _ hmem => nomatch hmem
  | cons x xs ih =>
    obtain ⟨hx, hxs⟩ := List.forall_mem_cons.mp h
    cases xs with
    | nil => exact hx
    | cons y ys => exact (hx.append hsep).append (ih hxs)

/-- No marker lies in the text, and none begins with the last digit by which an unprintable
character of it is escaped. -/
structure Clear (m x : String) : Prop where
  lacks : ¬ Occurs m x
  escapes : ∀ c, isPrintable c = false → m.toList.head? = some (hexDigit (c.toNat % 16)) →
    ¬ c :: m.toList.tail <:+: x.toList

def Printable (x : String) : Prop := ∀ c ∈ x.toList, isPrintable c = true

instance (x : String) : Decidable (Printable x) :=
  inferInstanceAs (Decidable (∀ c ∈ x.toList, isPrintable c = true))

theorem Clear.of_printable (h : ¬ Occurs m x) (hx : Printable x) : Clear m x where
  lacks := h
  escapes c hc _ ho := by
    rw [hx c (ho.subset List.mem_cons_self)] at hc
    cases hc

/-- What follows the backslash in an escape: one letter, or the code of the character. -/
inductive EscapeTail (c : Char) : List Char → Prop
  | letter {x : Char} : x ∈ ['"', '\'', '\\', 'n', 'r', 't', 'b', 'f'] → EscapeTail c [x]
  | code {y : Char} {k n : Nat} : y ∈ ['u', 'x', 'U'] → isPrintable c = false →
    n % 16 = c.toNat % 16 → EscapeTail c (y :: hexDigits (k + 1) n)

def hexChars : List Char := "0123456789abcdef".toList

theorem hexDigit_mem {d : Nat} (h : d < 16) : hexDigit d ∈ hexChars := by
  have hall : ∀ d < 16, hexDigit d ∈ hexChars := by decide
  exact hall d h

theorem mem_hexDigits {k n : Nat} {c : Char} (h : c ∈ hexDigits k n) : c ∈ hexChars := by
  induction k generalizing n with
  | zero => cases h
  | succ k ih =>
    rw [hexDigits, List.mem_append, List.mem_singleton] at h
    rcases h with h | rfl
    · exact ih h
    · exact hexDigit_mem (Nat.mod_lt _ (by decide))

namespace EscapeTail

variable {c : Char} {tail : List Char}

theorem printable (h : EscapeTail c tail) : ∀ d ∈ tail, isPrintable d = true := by
  have hhex : ∀ d ∈ hexChars, isPrintable d = true := by decide
  cases h with
  | letter hx =>
    have hletters : ∀ d ∈ ['"', '\'', '\\', 'n', 'r', 't', 'b', 'f'], isPrintable d = true := by
      decide
    simpa using hletters _ hx
  | code hy _ _ =>
    have hcodes : ∀ d ∈ ['u', 'x', 'U'], isPrintable d = true := by decide
    exact List.forall_mem_cons.mpr ⟨hcodes _ hy, fun d hd => hhex d (mem_hexDigits hd)⟩

theorem stop_not_mem (h : EscapeTail c tail) : ∀ d ∈ stops, d ∉ '\\' :: tail := by
  intro d hd
  cases h with
  | letter hx =>
    have hletters : ∀ d ∈ stops, ∀ x ∈ ['"', '\'', '\\', 'n', 'r', 't', 'b', 'f'],
        d ∉ ['\\', x] := by
      decide
    exact hletters d hd _ hx
  | code hy _ _ =>
    have hcodes : ∀ d ∈ stops, ∀ y ∈ ['u', 'x', 'U'], d ∉ ['\\', y] := by decide
    have hhex : ∀ d ∈ stops, d ∉ hexChars := by decide
    have hne := hcodes d hd _ hy
    simp only [List.mem_cons, not_or, List.not_mem_nil, not_false_iff, and_true] at hne ⊢
    exact ⟨hne.1, hne.2, fun hd' => hhex d hd (mem_hexDigits hd')⟩

/-- Of an escape no more than the last digit begins a marker. -/
theorem begins (hm : m ∈ markers) (h : EscapeTail c tail) {t r : List Char}
    (hcut : m.toList = t ++ r) (hne : t ≠ []) (ht : t <:+ tail) :
    isPrintable c = false ∧ m.toList = hexDigit (c.toNat % 16) :: r := by
  have hinits : t ∈ m.toList.inits := (List.mem_inits _ _).mpr (hcut ▸ List.prefix_append t r)
  cases h with
  | letter hx =>
    have hletters : ∀ m ∈ markers, ∀ t ∈ m.toList.inits, t ≠ [] →
        ∀ x ∈ ['"', '\'', '\\', 'n', 'r', 't', 'b', 'f'], ¬ t <:+ [x] := by
      decide
    exact absurd ht (hletters m hm t hinits hne _ hx)
  | @code y k n hy hc hn =>
    -- no marker begins with the letter of a code and a digit, and none with two digits
    rcases List.suffix_cons_iff.mp ht with rfl | ht
    · have hcodes : ∀ m ∈ markers, ∀ y ∈ ['u', 'x', 'U'], ∀ d ∈ hexChars,
          ¬ [y, d] <+: m.toList := by
        decide
      obtain ⟨d, ds, hds⟩ : ∃ d ds, hexDigits (k + 1) n = d :: ds := by
        rw [hexDigits]
        cases hexDigits k (n / 16) with
        | nil => exact ⟨_, _, rfl⟩
        | cons d ds => exact ⟨_, _, rfl⟩
      have hd : d ∈ hexChars := mem_hexDigits (hds ▸ List.mem_cons_self)
      rw [hds] at hcut
      exact absurd ⟨ds ++ r, by simp [hcut]⟩ (hcodes m hm y hy d hd)
    · have hsingle : ∀ m ∈ markers, ∀ t ∈ m.toList.inits, (∀ d ∈ t, d ∈ hexChars) →
          t.length ≤ 1 := by
        decide
      have hlength := hsingle m hm t hinits fun d hd => mem_hexDigits (ht.subset hd)
      rw [hexDigits] at ht
      rcases List.suffix_concat_iff.mp ht with rfl | ⟨u, rfl, -⟩
      · exact absurd rfl hne
      · cases u with
        | nil => exact ⟨hc, hn ▸ hcut⟩
        | cons d u => simp at hlength

end EscapeTail

section Quoting

variable {esc : Char → List Char}

theorem not_occurs_escaped (hm : m ∈ markers) (hx : Clear m x)
    (hesc : ∀ c, esc c = [c] ∨ ∃ tail, esc c = '\\' :: tail ∧ EscapeTail c tail) :
    ¬ m.toList <:+: x.toList.flatMap esc := by
  have hbackslash : '\\' ∉ m.toList := by
    clear hx
    revert m
    decide
  refine not_infix_flatMap hbackslash (fun c _ => ?_) hx.lacks
  refine (hesc c).imp_right fun ⟨tail, htail, hshape⟩ => ⟨tail, htail, fun ho => ?_, ?_⟩
  · have hstop : ∃ d ∈ stops, d ∈ m.toList := by
      clear hx hbackslash ho
      revert m
      decide
    obtain ⟨d, hd, hdm⟩ := hstop
    exact hshape.stop_not_mem d hd (ho.subset hdm)
  · intro t r hcut hne ht
    obtain ⟨hc, hmr⟩ := hshape.begins hm hcut hne ht
    have hclear := hx.escapes c hc (by rw [hmr, List.head?_cons])
    rwa [hmr, List.tail_cons] at hclear

theorem quotedChar_escapes (c : Char) :
    quotedChar c = [c] ∨ ∃ tail, quotedChar c = '\\' :: tail ∧ EscapeTail c tail := by
  fun_cases quotedChar c with
  | case1 => exact .inr ⟨_, rfl, .letter (by decide)⟩
  | case2 => exact .inr ⟨_, rfl, .letter (by decide)⟩
  | case3 => exact .inr ⟨_, rfl, .letter (by decide)⟩
  | case4 => exact .inr ⟨_, rfl, .letter (by decide)⟩
  | case5 => exact .inr ⟨_, rfl, .letter (by decide)⟩
  | case6 => exact .inr ⟨_, rfl, .letter (by decide)⟩
  | case7 => exact .inr ⟨_, rfl, .letter (by decide)⟩
  | case8 _ _ _ _ _ _ _ h =>
    have hc : isPrintable c = false := by
      rw [isPrintable_ascii (by omega)]
      simp [Nat.not_le.mpr h]
    exact .inr ⟨_, rfl, .code (by decide) hc rfl⟩
  | case9 => exact .inl rfl

theorem literalChar_escapes {q : Char} (hq : q ∈ ['"', '\'']) (c : Char) :
    (literalChar q c = [c] ∧ isPrintable c = true) ∨
      ∃ tail, literalChar q c = '\\' :: tail ∧ EscapeTail c tail := by
  fun_cases literalChar q c with
  | case1 h =>
    refine .inr ⟨_, rfl, .letter ?_⟩
    rcases h with rfl | rfl
    · revert c
      decide
    · decide
  | case2 => exact .inr ⟨_, rfl, .letter (by decide)⟩
  | case3 => exact .inr ⟨_, rfl, .letter (by decide)⟩
  | case4 => exact .inr ⟨_, rfl, .letter (by decide)⟩
  | case5 _ _ _ _ h => exact .inl ⟨rfl, h⟩
  | case6 _ _ _ _ h | case7 _ _ _ _ h | case8 _ _ _ _ h =>
    exact .inr ⟨_, rfl, .code (by decide) (by simpa using h) (codePoint_mod c)⟩

theorem quiet_between (hm : m ∈ markers) {q : Char} (hq : q ∈ ['"', '\'']) {cs : List Char}
    (h : ¬ m.toList <:+: cs) : Quiet m (String.ofList (q :: cs ++ [q])) := by
  have hfence : ∀ q ∈ ['"', '\''], ∀ w ∈ Spelled.spelling markers, isFence w [q] = true := by
    decide
  have hquote := fence_given hm (hfence q hq)
  have hsplit : String.ofList (q :: cs ++ [q]) =
      String.ofList [q] ++ String.ofList cs ++ String.ofList [q] := by
    rw [← String.ofList_append, ← String.ofList_append, List.singleton_append]
  rw [hsplit]
  exact (hquote.append (by rwa [Occurs, String.toList_ofList])).append hquote.quiet

theorem quiet_quote (hm : m ∈ markers) (hx : Clear m x) : Quiet m (quote x) :=
  quiet_between hm (by decide) (not_occurs_escaped hm hx quotedChar_escapes)

theorem literalQuote_mem (cs : List Char) : literalQuote cs ∈ ['"', '\''] := by
  unfold literalQuote
  split <;> simp

theorem quiet_literal (hm : m ∈ markers) (hx : Clear m x) : Quiet m (literal x) := by
  have hq := literalQuote_mem x.toList
  refine quiet_between hm hq (not_occurs_escaped hm hx fun c => ?_)
  exact (literalChar_escapes hq c).imp_left And.left

theorem printable_literalChar {q : Char} (hq : q ∈ ['"', '\'']) (c : Char) :
    ∀ d ∈ literalChar q c, isPrintable d = true := by
  have hbackslash : isPrintable '\\' = true := by decide
  rcases literalChar_escapes hq c with ⟨hkept, hc⟩ | ⟨tail, htail, hshape⟩
  · simpa [hkept] using hc
  · rw [htail]
    exact List.forall_mem_cons.mpr ⟨hbackslash, hshape.printable⟩

theorem printable_between {q : Char} (hq : q ∈ ['"', '\'']) {cs : List Char}
    (h : ∀ c ∈ cs, isPrintable c = true) : ∀ c ∈ q :: cs ++ [q], isPrintable c = true := by
  have hquotes : ∀ q ∈ ['"', '\''], isPrintable q = true := by decide
  simp only [List.mem_append, List.mem_cons, List.not_mem_nil, or_false]
  rintro c ((rfl | hc) | rfl)
  · exact hquotes c hq
  · exact h c hc
  · exact hquotes c hq

theorem printable_literal (x : String) : Printable (literal x) := by
  have hq := literalQuote_mem x.toList
  simp only [Printable, literal, String.toList_ofList]
  refine printable_between hq fun c hc => ?_
  obtain ⟨d, -, hd⟩ := List.mem_flatMap.mp hc
  exact printable_literalChar hq d c hd

theorem printable_literalByte {q : Char} (hq : q ∈ ['"', '\'']) (b : UInt8) :
    ∀ d ∈ literalByte q b, isPrintable d = true := by
  have hstart : isPrintable '\\' = true ∧ isPrintable 'x' = true := by decide
  have hhex : ∀ d ∈ hexChars, isPrintable d = true := by decide
  unfold literalByte
  dsimp only
  split_ifs
  · exact printable_literalChar hq _
  · simp only [List.forall_mem_cons]
    exact ⟨hstart.1, hstart.2, fun d hd => hhex d (mem_hexDigits hd)⟩

theorem printable_bytesLiteral (bs : List UInt8) : Printable (bytesLiteral bs) := by
  have hq := literalQuote_mem (bs.map fun b => Char.ofNat b.toNat)
  have hb : isPrintable 'b' = true := by decide
  rw [Printable, bytesLiteral, String.toList_ofList, List.cons_append, List.cons_append]
  refine List.forall_mem_cons.mpr ⟨hb, printable_between hq fun c hc => ?_⟩
  obtain ⟨b, -, hd⟩ := List.mem_flatMap.mp hc
  exact printable_literalByte hq b c hd

end Quoting

end ApiBindings.Text
