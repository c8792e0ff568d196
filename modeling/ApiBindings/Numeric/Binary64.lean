import ApiBindings.Text.Basic

/-!
Floating point numbers of 64 bits as exact values: a finite one is its sign, an integer below
`2 ^ 53` and a power of two. Reading a decimal rounds the exact quotient to the nearest such
value, and a tie goes to the even one.
-/

namespace ApiBindings

/-- A finite value is `mantissa * 2 ^ exponent` with a sign; zero keeps its sign. -/
inductive Binary64 where
  | finite (negative : Bool) (mantissa : Nat) (exponent : Int)
  | infinite (negative : Bool)
  | nan
deriving DecidableEq, Inhabited

namespace Binary64

def leastExponent : Int := -1074

def greatestExponent : Int := 971

def zero (negative : Bool) : Binary64 := .finite negative 0 leastExponent

def scaled (num den : Nat) (e : Int) : Nat × Nat :=
  if e < 0 then (num * Nat.pow 2 (-e).toNat, den) else (num, den * Nat.pow 2 e.toNat)

/-- The exponent for which the quotient of `num` by `den` has 53 binary digits, or the least one. -/
def fittingExponent (num den : Nat) : Int :=
  let guess : Int := max ((num.log2 : Int) - den.log2 - 53) leastExponent
  let (n, d) := scaled num den guess
  if n / d < Nat.pow 2 53 then guess else guess + 1

/-- The value nearest to the quotient of `num` by `den`; a tie goes to the even mantissa. -/
def ofRatio (negative : Bool) (num den : Nat) : Binary64 :=
  if num = 0 then zero negative
  else
    let e := fittingExponent num den
    let (n, d) := scaled num den e
    let q := n / d
    let r := n % d
    let m := if 2 * r > d ∨ (2 * r = d ∧ q % 2 = 1) then q + 1 else q
    let (m, e) := if m = Nat.pow 2 53 then (Nat.pow 2 52, e + 1) else (m, e)
    if e > greatestExponent then .infinite negative else .finite negative m e

def decimalLength (n : Nat) : Nat := (Text.ofNat n).length

/-- The value nearest to `digits * 10 ^ exponent`. Beyond 310 places the answer is infinity or
zero, whatever the digits are. -/
def ofDecimal (negative : Bool) (digits : Nat) (exponent : Int) : Binary64 :=
  if digits = 0 then zero negative
  else
    let places := (decimalLength digits : Int) + exponent
    if places > 310 then .infinite negative
    else if places < -330 then zero negative
    else if exponent < 0 then ofRatio negative digits (Nat.pow 10 (-exponent).toNat)
    else ofRatio negative (digits * Nat.pow 10 exponent.toNat) 1

def ofInt (n : Int) : Binary64 := ofRatio (n < 0) n.natAbs 1

def ratio? : Binary64 → Option (Int × Nat)
  | .finite negative m e =>
    let n : Int := if negative then -(m : Int) else m
    some (if e < 0 then (n, Nat.pow 2 (-e).toNat) else (n * Nat.pow 2 e.toNat, 1))
  | _ => none

def toInt? (x : Binary64) : Option Int :=
  x.ratio?.bind fun (n, d) => if n % d = 0 then some (n / d) else none

def isZero : Binary64 → Bool
  | .finite _ m _ => m == 0
  | _ => false

/-- Equality of numbers: the two zeros are equal, and nothing equals `nan`. -/
def equals (x y : Binary64) : Bool :=
  match x, y with
  | .nan, _ => false
  | _, .nan => false
  | x, y => x == y || (x.isZero && y.isZero)

def below : Binary64 → Binary64 → Bool
  | .nan, _ => false
  | _, .nan => false
  | .infinite s, .infinite t => s && !t
  | .infinite s, .finite .. => s
  | .finite .., .infinite t => !t
  | .finite s m e, .finite t n f =>
    match ratio? (.finite s m e), ratio? (.finite t n f) with
    | some (a, b), some (c, d) => decide (a * d < c * b)
    | _, _ => false

def negate : Binary64 → Binary64
  | .finite s m e => .finite (!s) m e
  | .infinite s => .infinite !s
  | .nan => .nan

def add (x y : Binary64) : Binary64 :=
  match x, y with
  | .nan, _ => .nan
  | _, .nan => .nan
  | .infinite s, .infinite t => if s = t then .infinite s else .nan
  | .infinite s, _ => .infinite s
  | _, .infinite t => .infinite t
  | .finite s m e, .finite t n f =>
    match ratio? (.finite s m e), ratio? (.finite t n f) with
    | some (a, b), some (c, d) =>
      let num := a * d + c * b
      if num = 0 then zero (s && t) else ofRatio (num < 0) num.natAbs (b * d)
    | _, _ => .nan

def scale (x : Binary64) (k : Int) : Binary64 :=
  match x with
  | .nan => .nan
  | .infinite s => if k = 0 then .nan else .infinite (s != decide (k < 0))
  | .finite s m e =>
    match ratio? (.finite s m e) with
    | some (a, b) =>
      let negative := s != decide (k < 0)
      if a = 0 ∨ k = 0 then zero negative else ofRatio negative (a * k).natAbs b
    | none => .nan

end Binary64

end ApiBindings
