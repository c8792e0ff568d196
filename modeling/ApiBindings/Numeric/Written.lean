import ApiBindings.Numeric.Binary64
import ApiBindings.Text.Space

/-!
Reading integers of any base and floats from whole texts. White space around the number and a
sign before it are accepted.
-/

namespace ApiBindings.Numeric

def digitValue? (c : Char) : Option Nat :=
  if Text.isDecimalDigit c then some (c.toNat - 48)
  else if 'a' ≤ c ∧ c ≤ 'z' then some (c.toNat - 87)
  else if 'A' ≤ c ∧ c ≤ 'Z' then some (c.toNat - 55)
  else none

def readDigits? (base : Nat) (ds : List Char) : Option Nat :=
  if ds.isEmpty then none
  else ds.foldlM (fun n c => do
    let d ← digitValue? c
    if d < base then some (n * base + d) else none) 0

def splitSign : List Char → Bool × List Char
  | '-' :: rest => (true, rest)
  | '+' :: rest => (false, rest)
  | s => (false, s)

def basePrefix? (base : Nat) : Option Char :=
  if base = 2 then some 'b'
  else if base = 8 then some 'o'
  else if base = 16 then some 'x'
  else none

def dropBaseMark (base : Nat) (s : List Char) : List Char :=
  match s, basePrefix? base with
  | '0' :: c :: rest, some mark => if c.toLower = mark then rest else s
  | s, _ => s

def decimalDigitLimit : Nat := 4300

/-- An integer of a base. A decimal one has at most 4300 digits. -/
def readInteger? (base : Nat) (s : List Char) : Option Int := do
  let (negative, s) := splitSign (Text.trim s)
  let digits := dropBaseMark base s
  if base = 10 ∧ decimalDigitLimit < digits.length then none
  let n ← readDigits? base digits
  return if negative then -(n : Int) else n

def readExponent? : List Char → Option Int
  | [] => some 0
  | e :: rest => do
    if e ≠ 'e' ∧ e ≠ 'E' then none
    let (negative, digits) := splitSign rest
    let n ← readDigits? 10 digits
    return if negative then -(n : Int) else n

def readUnsignedFloat? (negative : Bool) (s : List Char) : Option Binary64 := do
  let word := Text.lowerAscii (String.ofList s)
  if word = "inf" ∨ word = "infinity" then return .infinite negative
  if word = "nan" then return .nan
  let whole := s.takeWhile Text.isDecimalDigit
  let rest := s.dropWhile Text.isDecimalDigit
  let (fraction, rest) := match rest with
    | '.' :: rest => (rest.takeWhile Text.isDecimalDigit, rest.dropWhile Text.isDecimalDigit)
    | rest => ([], rest)
  let digits ← readDigits? 10 (whole ++ fraction)
  let exponent ← readExponent? rest
  return .ofDecimal negative digits (exponent - fraction.length)

/-- A float: a decimal with an optional exponent, or a word for infinity or for no number. -/
def readFloat? (s : List Char) : Option Binary64 :=
  let (negative, s) := splitSign (Text.trim s)
  readUnsignedFloat? negative s

end ApiBindings.Numeric
