import ApiBindings.Json.Problem
import ApiBindings.Document.Value
import ApiBindings.Text.Surrogate

/-!
Strings and numbers of JSON. Each reader returns what it read and the rest of the text, which is
shorter than the text was.
-/

namespace ApiBindings.Json

structure Scanned (α : Type) (s : List Char) where
  value : α
  rest : List Char
  shorter : rest.length < s.length

def Scanned.within {α : Type} {s t : List Char} (x : Scanned α s) (h : s.length ≤ t.length) :
    Scanned α t :=
  ⟨x.value, x.rest, Nat.lt_of_lt_of_le x.shorter h⟩

def Scanned.map {α β : Type} {s : List Char} (f : α → β) (x : Scanned α s) : Scanned β s :=
  ⟨f x.value, x.rest, x.shorter⟩

def isBlank (c : Char) : Bool := c == ' ' || c == '\t' || c == '\n' || c == '\r'

def skipBlanks (s : List Char) : List Char := s.dropWhile isBlank

theorem length_skipBlanks_le (s : List Char) : (skipBlanks s).length ≤ s.length :=
  (List.dropWhile_sublist _).length_le

def escaped? (c : Char) : Option Char :=
  if c = '"' ∨ c = '\\' ∨ c = '/' then some c
  else if c = 'b' then some '\x08'
  else if c = 'f' then some '\x0c'
  else if c = 'n' then some '\n'
  else if c = 'r' then some '\r'
  else if c = 't' then some '\t'
  else none

def codeUnit? (a b c d : Char) : Option Nat := do
  return (((← Text.hexValue? a) * 16 + (← Text.hexValue? b)) * 16 + (← Text.hexValue? c)) * 16
    + (← Text.hexValue? d)

def isHighSurrogate (n : Nat) : Bool := 0xd800 ≤ n && n < 0xdc00

def isLowSurrogate (n : Nat) : Bool := 0xdc00 ≤ n && n < 0xe000

/-- The second half of a pair, written as an escape of its own. A malformed one is reported
even where the text before it could stand alone. -/
def lowHalf? (high : Nat) (s : List Char) : Except Problem (Option (Scanned Char s)) :=
  match s with
  | '\\' :: 'u' :: a :: b :: c :: d :: e :: rest =>
    if isHighSurrogate high then
      match codeUnit? a b c d with
      | none => .error (.malformed .malformedUnicodeEscape (rest.length + 6))
      | some low =>
        if isLowSurrogate low then
          let code := 0x10000 + (high - 0xd800) * 0x400 + (low - 0xdc00)
          .ok (some ⟨Text.ofCodePoint code, e :: rest, by simp only [List.length_cons]; omega⟩)
        else .ok none
    else .ok none
  | _ => .ok none

/-- What an escape stands for, after its backslash. A unicode escape at the very end of the text
is malformed. -/
def readEscape (start : Nat) (s : List Char) : Except Problem (Scanned Char s) :=
  match s with
  | [] => .error (.malformed .unterminatedString start)
  | 'u' :: a :: b :: c :: d :: e :: rest =>
    match codeUnit? a b c d with
    | none => .error (.malformed .malformedUnicodeEscape (rest.length + 6))
    | some unit => do
      match ← lowHalf? unit (e :: rest) with
      | some pair => return pair.within (by simp only [List.length_cons]; omega)
      | none => return ⟨Text.ofCodePoint unit, e :: rest, by simp only [List.length_cons]; omega⟩
  | 'u' :: rest => .error (.malformed .malformedUnicodeEscape (rest.length + 1))
  | c :: rest =>
    match escaped? c with
    | some e => .ok ⟨e, rest, by simp⟩
    | none => .error (.malformed .unknownEscape (rest.length + 2))

/-- The characters of a string up to its closing quote. The quote that opened it had `start`
characters from it to the end of the text. -/
def readString (start : Nat) (s : List Char) : Except Problem (Scanned (List Char) s) :=
  match s with
  | [] => .error (.malformed .unterminatedString start)
  | '"' :: rest => .ok ⟨[], rest, by simp⟩
  | '\\' :: rest => do
    let e ← readEscape start rest
    let tail ← readString start e.rest
    return ⟨e.value :: tail.value, tail.rest, by
      have := e.shorter; have := tail.shorter; simp only [List.length_cons]; omega⟩
  | c :: rest =>
    if c.toNat < 0x20 then .error (.malformed .controlCharacter (rest.length + 1))
    else do
      let tail ← readString start rest
      return ⟨c :: tail.value, tail.rest, by
        have := tail.shorter; simp only [List.length_cons]; omega⟩
termination_by s.length
decreasing_by
  · have := e.shorter; simp only [List.length_cons]; omega
  · simp

def integerDigitLimit : Nat := 4300

def readFraction (s : List Char) : Option (List Char × List Char) :=
  match s with
  | '.' :: rest =>
    let digits := rest.takeWhile Text.isDecimalDigit
    if digits.isEmpty then none else some (digits, rest.dropWhile Text.isDecimalDigit)
  | _ => none

def readExponent (s : List Char) : Option (Int × List Char) :=
  match s with
  | c :: rest =>
    if c = 'e' ∨ c = 'E' then
      let (negative, rest) := match rest with
        | '-' :: r => (true, r)
        | '+' :: r => (false, r)
        | r => (false, r)
      let digits := rest.takeWhile Text.isDecimalDigit
      if digits.isEmpty then none
      else
        let n : Int := Text.natOfDigits digits
        some (if negative then -n else n, rest.dropWhile Text.isDecimalDigit)
    else none
  | [] => none

/-- The digits before the point: a zero alone, or digits that begin with another one. -/
def readWhole (s : List Char) : Option (List Char × List Char) :=
  match s with
  | '0' :: rest => some (['0'], rest)
  | s =>
    let digits := s.takeWhile Text.isDecimalDigit
    if digits.isEmpty then none else some (digits, s.dropWhile Text.isDecimalDigit)

/-- A number without its sign: an integer, or a float if a fraction or an exponent follows. -/
def readNumber? (negative : Bool) (s : List Char) : Option (Except Problem Scalar × List Char) := do
  let (whole, rest) ← readWhole s
  let fraction := readFraction rest
  let rest := (fraction.map (·.2)).getD rest
  let exponent := readExponent rest
  let rest := (exponent.map (·.2)).getD rest
  if fraction.isNone && exponent.isNone then
    if whole.length > integerDigitLimit then return (.error .hugeInteger, rest)
    else
      let n : Int := Text.natOfDigits whole
      return (.ok (.int (if negative then -n else n)), rest)
  else
    let digits := (fraction.map (·.1)).getD []
    let shift := (exponent.map (·.1)).getD 0
    return (.ok (.float (.ofDecimal negative (Text.natOfDigits (whole ++ digits))
      (shift - digits.length))), rest)

def words : List (String × Scalar) := [
  ("null", .null), ("true", .bool true), ("false", .bool false), ("NaN", .float .nan),
  ("Infinity", .float (.infinite false)), ("-Infinity", .float (.infinite true))]

def readWord? (s : List Char) : List (String × Scalar) → Option (Scalar × List Char)
  | [] => none
  | (word, value) :: more =>
    match Text.after? word.toList s with
    | some rest => some (value, rest)
    | none => readWord? s more

/-- A word or a number. What is neither is complained of at its beginning. -/
def readScalar (s : List Char) : Except Problem (Scalar × List Char) :=
  match readWord? s words with
  | some found => .ok found
  | none =>
    let number := match s with
      | '-' :: rest => readNumber? true rest
      | s => readNumber? false s
    match number with
    | some (.ok value, rest) => .ok (value, rest)
    | some (.error problem, _) => .error problem
    | none => .error (.malformed .valueExpected s.length)

end ApiBindings.Json
