import ApiBindings.Proofs.Text.Surrogate
import ApiBindings.Text.Literal
import Mathlib.Tactic.Ring
import Mathlib.Tactic.SplitIfs

/-!
Texts in quotes read back. Main statement: texts with the same literal are the same.
-/

namespace ApiBindings.Text

def hexDigitValue (c : Char) : Nat := if c.toNat < 58 then c.toNat - 48 else c.toNat - 87

def hexNat (cs : List Char) : Nat := cs.foldl (fun n c => n * 16 + hexDigitValue c) 0

theorem hexDigitValue_hexDigit : ∀ d < 16, hexDigitValue (hexDigit d) = d := by decide

theorem length_hexDigits (k n : Nat) : (hexDigits k n).length = k := by
  induction k generalizing n with
  | zero => rfl
  | succ k ih => simp [hexDigits, ih]

theorem hexNat_hexDigits (k n : Nat) : hexNat (hexDigits k n) = n % 16 ^ k := by
  induction k generalizing n with
  | zero => simp [hexDigits, hexNat, Nat.mod_one]
  | succ k ih =>
    have hdigit : n % 16 < 16 := Nat.mod_lt n (by decide)
    have hfront := ih (n / 16)
    rw [hexNat] at hfront
    rw [hexDigits, hexNat, List.foldl_append, hfront, List.foldl_cons, List.foldl_nil,
      hexDigitValue_hexDigit _ hdigit, Nat.pow_succ, Nat.mul_comm (16 ^ k) 16, Nat.mod_mul]
    omega

/-- The character that the first of the codes of a literal stands for. -/
def firstMeant? : List Char → Option Char
  | '\\' :: 'x' :: cs => some (ofCodePoint (hexNat (cs.take 2)))
  | '\\' :: 'u' :: cs => some (ofCodePoint (hexNat (cs.take 4)))
  | '\\' :: 'U' :: cs => some (ofCodePoint (hexNat (cs.take 8)))
  | '\\' :: 'n' :: _ => some '\n'
  | '\\' :: 'r' :: _ => some '\r'
  | '\\' :: 't' :: _ => some '\t'
  | '\\' :: c :: _ => some c
  | c :: _ => some c
  | [] => none

theorem ofCodePoint_hexNat_take {k : Nat} {c : Char} (h : codePoint c < 16 ^ k)
    (rest : List Char) :
    ofCodePoint (hexNat ((hexDigits k (codePoint c) ++ rest).take k)) = c := by
  rw [List.take_left' (length_hexDigits k (codePoint c)), hexNat_hexDigits, Nat.mod_eq_of_lt h,
    ofCodePoint_codePoint]

theorem firstMeant?_of_ne {c : Char} (h : c ≠ '\\') (rest : List Char) :
    firstMeant? (c :: rest) = some c := by
  unfold firstMeant?
  split <;> simp_all

theorem firstMeant?_literalChar {q : Char} (hq : q = '\'' ∨ q = '"') (c : Char)
    (rest : List Char) : firstMeant? (literalChar q c ++ rest) = some c := by
  fun_cases literalChar q c with
  | case1 h =>
    rcases h with rfl | rfl
    · rcases hq with rfl | rfl <;> rfl
    · rfl
  | case2 _ h | case3 _ _ h | case4 _ _ _ h =>
    rw [h]
    rfl
  | case5 hplain _ _ _ _ =>
    rw [not_or] at hplain
    exact firstMeant?_of_ne hplain.2 rest
  | case6 _ _ _ _ _ h => exact congrArg some (ofCodePoint_hexNat_take h rest)
  | case7 _ _ _ _ _ _ h => exact congrArg some (ofCodePoint_hexNat_take h rest)
  | case8 =>
    have hlt : codePoint c < 16 ^ 8 := (codePoint_lt c).trans (by decide)
    exact congrArg some (ofCodePoint_hexNat_take hlt rest)

theorem literalChar_ne_nil (q c : Char) : literalChar q c ≠ [] := by
  unfold literalChar
  split_ifs <;> simp

theorem flatMap_literalChar_injective {q : Char} (hq : q = '\'' ∨ q = '"') {s t : List Char}
    (h : s.flatMap (literalChar q) = t.flatMap (literalChar q)) : s = t := by
  induction s generalizing t with
  | nil =>
    cases t with
    | nil => rfl
    | cons d t => simp [literalChar_ne_nil] at h
  | cons c s ih =>
    cases t with
    | nil => simp [literalChar_ne_nil] at h
    | cons d t =>
      rw [List.flatMap_cons, List.flatMap_cons] at h
      have hmeant := congrArg firstMeant? h
      rw [firstMeant?_literalChar hq, firstMeant?_literalChar hq] at hmeant
      obtain rfl := Option.some.inj hmeant
      rw [ih (List.append_cancel_left h)]

theorem literalQuote_cases (s : List Char) : literalQuote s = '\'' ∨ literalQuote s = '"' := by
  unfold literalQuote
  split_ifs
  · exact .inr rfl
  · exact .inl rfl

theorem literal_injective {s t : String} (h : literal s = literal t) : s = t := by
  have hchars := String.ofList_injective h
  obtain ⟨hquote, hrest⟩ := List.cons.inj hchars
  rw [hquote] at hrest
  exact String.toList_inj.mp
    (flatMap_literalChar_injective (literalQuote_cases _) (List.append_cancel_right hrest))

end ApiBindings.Text
