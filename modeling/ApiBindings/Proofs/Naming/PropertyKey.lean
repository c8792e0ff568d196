import ApiBindings.Proofs.Text.Surrogate
import ApiBindings.Proofs.TypeText.Grammar
import ApiBindings.Json.Lexeme
import Mathlib.Tactic.SplitIfs

/-!
Property keys as they are read. Main statement: the key of a name is read as the name, unless the
name is an identifier with a line break behind it; no two names have the same key.
-/

namespace ApiBindings

namespace Json

theorem readEscape_escaped {e c : Char} (h : escaped? e = some c) (tail : List Char)
    (start : Nat) : ∃ hlt, readEscape start (e :: tail) = .ok ⟨c, tail, hlt⟩ := by
  have hu : e ≠ 'u' := TypeText.escaped?_ne_u h
  rw [readEscape]
  · rw [h]
    exact ⟨_, rfl⟩
  · rintro _ _ _ _ _ _ rfl
    exact absurd rfl hu
  · exact hu

theorem lowHalf?_of_not_high {n : Nat} (h : isHighSurrogate n = false) (s : List Char) :
    lowHalf? n s = .ok none := by
  unfold lowHalf?
  split
  · rw [if_neg (by simp [h])]
  · rfl

/-- The code of a control character is half of no pair, so that what follows is left alone. -/
theorem readEscape_unit {a b c d : Char} {n : Nat} {tail : List Char} (hne : tail ≠ [])
    (h : codeUnit? a b c d = some n) (hn : n < 0x20) (start : Nat) :
    ∃ hlt, readEscape start ('u' :: a :: b :: c :: d :: tail) =
      .ok ⟨Char.ofNat n, tail, hlt⟩ := by
  obtain ⟨e, rest, rfl⟩ := List.exists_cons_of_ne_nil hne
  have hhigh : isHighSurrogate n = false := by
    simp only [isHighSurrogate, Bool.and_eq_false_iff, decide_eq_false_iff_not]
    omega
  have hunit : Text.ofCodePoint n = Char.ofNat n := Text.ofCodePoint_of_lt (by omega)
  have halone : lowHalf? n (e :: rest) = .ok none := lowHalf?_of_not_high hhigh _
  rw [readEscape, h]
  dsimp only
  rw [halone, ← hunit]
  exact ⟨_, rfl⟩

theorem readString_quoted (cs rest : List Char) (start : Nat) :
    ∃ hlt, readString start (cs.flatMap Text.quotedChar ++ '"' :: rest) = .ok ⟨cs, rest, hlt⟩ := by
  induction cs with
  | nil =>
    rw [List.flatMap_nil, List.nil_append, readString]
    exact ⟨_, rfl⟩
  | cons c cs ih =>
    obtain ⟨hlt, ih⟩ := ih
    rw [List.flatMap_cons, List.append_assoc]
    rcases TypeText.quotedChar_cases c with ⟨e, hq, he⟩ | ⟨a, b, hq, hc, hu⟩ | ⟨hq, hc, hs, hd⟩
    · obtain ⟨_, hescape⟩ := readEscape_escaped he (cs.flatMap Text.quotedChar ++ '"' :: rest) start
      rw [hq, List.cons_append, List.singleton_append, readString, hescape]
      change ∃ _, (readString start (cs.flatMap Text.quotedChar ++ '"' :: rest) >>= _) = _
      rw [ih]
      exact ⟨_, rfl⟩
    · -- Four digits are read as a code only if more follows: at least the closing quote does.
      have hne : cs.flatMap Text.quotedChar ++ '"' :: rest ≠ [] := by simp
      obtain ⟨_, hescape⟩ := readEscape_unit hne hu hc start
      rw [Char.ofNat_toNat] at hescape
      rw [hq, List.cons_append, readString]
      simp only [List.cons_append, List.nil_append]
      rw [hescape]
      change ∃ _, (readString start (cs.flatMap Text.quotedChar ++ '"' :: rest) >>= _) = _
      rw [ih]
      refine ⟨?_, rfl⟩
      simp only [List.length_cons]
      omega
    · rw [hq, List.singleton_append, readString, if_neg hc, ih]
      · exact ⟨_, rfl⟩
      · exact hd
      · exact hs

end Json

namespace Naming

def readKey? (key : String) : Option String :=
  if TypeText.isName key.toList then some key
  else match key.toList with
    | '"' :: cs =>
      match Json.readString (cs.length + 1) cs with
      | .ok x => if x.rest.isEmpty then some (String.ofList x.value) else none
      | .error _ => none
    | _ => none

def BreaksOff (name : String) : Prop :=
  ∃ identifier : String, isBare identifier.toList = true ∧ name = identifier ++ "\n"

theorem isBare_break (cs : List Char) : isBare (cs ++ ['\n']) = false := by
  cases cs with
  | nil => rfl
  | cons c cs =>
    rw [List.cons_append, isBare, List.all_append]
    simp [isIdentifierPart]

theorem isIdentifier_iff {name : String} :
    isIdentifier name = true ↔ isBare name.toList = true ∨ BreaksOff name := by
  rw [isIdentifier, Text.dropFinal]
  split_ifs with hlast
  · obtain ⟨front, hfront⟩ := List.getLast?_eq_some_iff.mp hlast
    rw [hfront, List.dropLast_concat, isBare_break]
    constructor
    · intro h
      refine .inr ⟨String.ofList front, by rwa [String.toList_ofList], ?_⟩
      rw [← String.ofList_toList (s := name), hfront, String.ofList_append]
    · rintro (h | ⟨identifier, h, rfl⟩)
      · cases h
      · rw [String.toList_append] at hfront
        rwa [← List.append_cancel_right hfront]
  · refine ⟨.inl, fun h => h.resolve_right ?_⟩
    rintro ⟨identifier, -, rfl⟩
    exact hlast (by simp)

theorem readKey?_quote (s : String) : readKey? (Text.quote s) = some s := by
  have hname : TypeText.isName (Text.quote s).toList = false := by
    rw [Text.quote_toList]
    rfl
  have htext : (Text.quote s).toList = '"' :: (s.toList.flatMap Text.quotedChar ++ ['"']) := by
    rw [Text.quote_toList]
    rfl
  obtain ⟨_, hread⟩ := Json.readString_quoted s.toList []
    ((s.toList.flatMap Text.quotedChar ++ ['"']).length + 1)
  rw [readKey?, hname, if_neg (by simp), htext]
  simp only [hread]
  rw [if_pos List.isEmpty_nil, String.ofList_toList]

theorem head_ne_quote {cs : List Char} (h : isBare cs = true) (tail : List Char) :
    (cs ++ tail).head? ≠ some '"' := by
  cases cs with
  | nil => cases h
  | cons c cs =>
    rw [isBare, Bool.and_eq_true] at h
    rw [List.cons_append, List.head?_cons]
    rintro hc
    rw [Option.some.inj hc] at h
    exact absurd h.1 (by decide)

theorem readKey?_breaksOff {name : String} (h : BreaksOff name) : readKey? name = none := by
  obtain ⟨identifier, hbare, rfl⟩ := h
  have hquote := head_ne_quote hbare "\n".toList
  have hname : TypeText.isName (identifier ++ "\n").toList = false := by
    rw [String.toList_append]
    cases hcs : identifier.toList with
    | nil => rfl
    | cons c cs =>
      have hbreak : TypeText.isNamePart '\n' = false := by decide
      rw [List.cons_append, TypeText.isName, List.all_append]
      simp [hbreak]
  rw [readKey?, hname, if_neg (by simp)]
  split
  · rename_i cs hcs
    rw [← String.toList_append, hcs] at hquote
    exact absurd rfl hquote
  · rfl

theorem length_quotedChar_pos (c : Char) : 0 < (Text.quotedChar c).length := by
  rcases TypeText.quotedChar_cases c with ⟨e, hq, -⟩ | ⟨a, b, hq, -⟩ | ⟨hq, -⟩ <;> simp [hq]

theorem quote_ne_self (s : String) : Text.quote s ≠ s := by
  intro h
  have hgrows : s.toList.length ≤ (s.toList.flatMap Text.quotedChar).length := by
    induction s.toList with
    | nil => exact Nat.le_refl 0
    | cons c cs ih =>
      have := length_quotedChar_pos c
      rw [List.flatMap_cons, List.length_append, List.length_cons]
      omega
  have hlength := congrArg (fun t => t.toList.length) h
  simp only [Text.quote_toList, Text.quotedChars, List.length_cons, List.length_append,
    List.cons_append] at hlength
  omega

theorem ne_quote_of_isIdentifier {name : String} (hid : isIdentifier name = true) (s : String) :
    name ≠ Text.quote s := by
  intro heq
  have hquote : name.toList.head? = some '"' := by
    rw [heq, Text.quote_toList]
    rfl
  rcases isIdentifier_iff.mp hid with h | ⟨identifier, h, rfl⟩
  · exact head_ne_quote h [] (by rwa [List.append_nil])
  · exact head_ne_quote h _ (by rwa [← String.toList_append])

theorem propertyKey_injective : Function.Injective propertyKey := by
  intro a b h
  unfold propertyKey at h
  split_ifs at h with ha hb hb
  · exact h
  · exact absurd h (ne_quote_of_isIdentifier ha b)
  · exact absurd h.symm (ne_quote_of_isIdentifier hb a)
  · have hread := congrArg readKey? h
    rw [readKey?_quote, readKey?_quote] at hread
    exact Option.some.inj hread

/-- The key of a name is read as the name, and different names have different keys. Bare are
identifiers only, except that one with a line break behind it is not quoted either; it is no key. -/
theorem readKey?_propertyKey (name : String) :
    (¬ BreaksOff name → readKey? (propertyKey name) = some name) ∧
      (BreaksOff name → readKey? (propertyKey name) = none) ∧
      (propertyKey name = name ↔ isBare name.toList = true ∨ BreaksOff name) ∧
      ∀ other, propertyKey other = propertyKey name → other = name := by
  refine ⟨fun h => ?_, fun h => ?_, ⟨fun h => ?_, fun h => ?_⟩,
    fun other h => propertyKey_injective h⟩
  · rw [propertyKey]
    split_ifs with hid
    · have hbare := (isIdentifier_iff.mp hid).resolve_right h
      rw [readKey?, if_pos (TypeText.isName_of_isBare hbare)]
    · exact readKey?_quote name
  · rw [propertyKey, if_pos (isIdentifier_iff.mpr (.inr h))]
    exact readKey?_breaksOff h
  · rw [← isIdentifier_iff]
    by_contra hid
    rw [propertyKey, if_neg hid] at h
    exact quote_ne_self name h
  · rw [propertyKey, if_pos (isIdentifier_iff.mpr h)]

theorem readKey?_brokenName : readKey? (propertyKey "name\n") ≠ some "name\n" := by
  decide

end Naming

end ApiBindings
