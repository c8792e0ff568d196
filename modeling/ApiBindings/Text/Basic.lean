/-!
Joining, splitting and searching texts. Every operation is recursive on the list of characters,
so that it can be followed character by character.
-/

namespace ApiBindings.Text

def joinWith (sep : String) : List String → String
  | [] => ""
  | [x] => x
  | x :: y :: rest => x ++ sep ++ joinWith sep (y :: rest)

/-- What follows `p` in a text that begins with `p`. -/
def after? : List Char → List Char → Option (List Char)
  | [], s => some s
  | _ :: _, [] => none
  | p :: ps, c :: cs => if p = c then after? ps cs else none

theorem after?_eq_some_iff {p s r : List Char} : after? p s = some r ↔ s = p ++ r := by
  induction p generalizing s with
  | nil => simp [after?, eq_comm]
  | cons a ps ih =>
    cases s with
    | nil => simp [after?]
    | cons c cs =>
      by_cases h : a = c
      · subst h; simp [after?, ih]
      · simp [after?, h, eq_comm]

def dropStart? (p s : String) : Option String :=
  (after? p.toList s.toList).map String.ofList

def beginsWith (p s : String) : Bool := (after? p.toList s.toList).isSome

def endsWith (p s : String) : Bool := (after? p.toList.reverse s.toList.reverse).isSome

def occursIn (p : List Char) : List Char → Bool
  | [] => p.isEmpty
  | c :: cs => (after? p (c :: cs)).isSome || occursIn p cs

/-- The pieces between the separators, one more than there are separators. -/
def pieces (isSeparator : Char → Bool) : List Char → List (List Char)
  | [] => [[]]
  | c :: cs =>
    if isSeparator c then [] :: pieces isSeparator cs
    else match pieces isSeparator cs with
      | [] => [[c]]
      | piece :: rest => (c :: piece) :: rest

def splitAt (sep : Char) (s : String) : List String :=
  (pieces (· == sep) s.toList).map String.ofList

/-- The maximal non-empty runs of characters that satisfy `keep`. -/
def runs (keep : Char → Bool) (s : List Char) : List (List Char) :=
  (pieces (fun c => !keep c) s).filter fun run => !run.isEmpty

theorem length_le_of_after? {p s r : List Char} (h : after? p s = some r) :
    r.length + p.length = s.length := by
  rw [after?_eq_some_iff] at h
  subst h
  simp [Nat.add_comm]

/-- The text without the occurrences of `p`, found from the left; an empty `p` removes nothing. -/
def erase (p : List Char) (s : List Char) : List Char :=
  match s with
  | [] => []
  | c :: cs =>
    if p.isEmpty then c :: cs
    else match _h : after? p (c :: cs) with
      | some r => erase p r
      | none => c :: erase p cs
termination_by s.length
decreasing_by
  · have := length_le_of_after? ‹_›
    cases p with
    | nil => simp_all
    | cons a ps => simp only [List.length_cons] at this ⊢; omega
  · simp

def expand (c : Char) (r : List Char) (s : List Char) : List Char :=
  s.flatMap fun x => if x = c then r else [x]

/-- Each occurrence of the pair `a b`, found from the left, written as `c`. -/
def contract (a b c : Char) : List Char → List Char
  | [] => []
  | [x] => [x]
  | x :: y :: rest =>
    if x = a ∧ y = b then c :: contract a b c rest else x :: contract a b c (y :: rest)

def dropFinal (c : Char) (s : List Char) : List Char :=
  if s.getLast? = some c then s.dropLast else s

def inRanges (n : Nat) (ranges : List (Nat × Nat)) : Bool :=
  ranges.any fun r => r.1 ≤ n && n ≤ r.2

def ofNat (n : Nat) : String := String.ofList (Nat.toDigits 10 n)

def ofInt : Int → String
  | .ofNat n => ofNat n
  | .negSucc n => "-" ++ ofNat (n + 1)

def hexDigit (d : Nat) : Char := if d < 10 then Char.ofNat (48 + d) else Char.ofNat (87 + d)

/-- The last `k` hexadecimal digits of `n`, the most significant first. -/
def hexDigits : Nat → Nat → List Char
  | 0, _ => []
  | k + 1, n => hexDigits k (n / 16) ++ [hexDigit (n % 16)]

def hexValue? (c : Char) : Option Nat :=
  if '0' ≤ c ∧ c ≤ '9' then some (c.toNat - 48)
  else if 'a' ≤ c ∧ c ≤ 'f' then some (c.toNat - 87)
  else if 'A' ≤ c ∧ c ≤ 'F' then some (c.toNat - 55)
  else none

def isDecimalDigit (c : Char) : Bool := '0' ≤ c && c ≤ '9'

def natOfDigits (ds : List Char) : Nat := ds.foldl (fun n c => n * 10 + (c.toNat - 48)) 0

def lowerAscii (s : String) : String := String.ofList (s.toList.map Char.toLower)

end ApiBindings.Text
