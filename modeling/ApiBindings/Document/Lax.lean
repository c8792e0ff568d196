import ApiBindings.Document.Access

/-!
Lenient reading of numbers and truth values. A field for an integer also takes a truth value, a
float without fraction and a decimal text; a field for a truth value takes the usual words.
-/

namespace ApiBindings.Value

def digitGroups : List Char → Bool
  | [] => false
  | [c] => Text.isDecimalDigit c
  | c :: '_' :: rest => Text.isDecimalDigit c && digitGroups rest
  | c :: rest => Text.isDecimalDigit c && digitGroups rest

/-- An integer in decimal: blanks around it, a sign, digits, and a fraction of zeros. -/
def readInteger? (s : List Char) : Option Int :=
  let blank (c : Char) : Bool := c.isWhitespace || c.toNat == 11 || c.toNat == 12
  let s := ((s.dropWhile blank).reverse.dropWhile blank).reverse
  let (negative, s) := match s with
    | '-' :: r => (true, r)
    | '+' :: r => (false, r)
    | r => (false, r)
  let whole := s.takeWhile (· != '.')
  let fraction := (s.dropWhile (· != '.')).drop 1
  if digitGroups whole && fraction.all (· == '0') then
    let n : Int := Text.natOfDigits (whole.filter Text.isDecimalDigit)
    some (if negative then -n else n)
  else none

def floatBound : Int := Nat.pow 2 63

def integerField : Value → Except Fault Int
  | .scalar (.str s) =>
    match readInteger? s.toList with
    | some n => .ok n
    | none => .error (.misuse .rejectedField)
  | .scalar (.float x) =>
    match x.toInt? with
    | some n =>
      if -floatBound < n ∧ n < floatBound then .ok n else .error (.misuse .rejectedField)
    | none => .error (.misuse .rejectedField)
  | .scalar s =>
    match s.integer? with
    | some n => .ok n
    | none => .error (.misuse .rejectedField)
  | _ => .error (.misuse .rejectedField)

def truthField : Value → Except Fault Bool
  | .scalar (.str s) =>
    let word := Text.lowerAscii s
    if word ∈ ["1", "on", "t", "true", "y", "yes"] then .ok true
    else if word ∈ ["0", "off", "f", "false", "n", "no"] then .ok false
    else .error (.misuse .rejectedField)
  | .scalar s =>
    if s.integer? = some 1 then .ok true
    else if s.integer? = some 0 then .ok false
    else .error (.misuse .rejectedField)
  | _ => .error (.misuse .rejectedField)

end ApiBindings.Value
