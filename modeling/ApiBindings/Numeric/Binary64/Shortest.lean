import ApiBindings.Numeric.Binary64

/-!
The shortest decimal of a floating point number: of all decimals that are read as the number
the one with the fewest digits, and of those the nearest. It is written positionally from
`0.0001` up to sixteen places before the point, and with an exponent outside.
-/

namespace ApiBindings.Binary64

/-- A positive value and the ends of the interval of reals that are rounded to it, all as
multiples of one unit `num / den`; the ends belong to the interval if `closed`. -/
structure Rounding where
  num : Nat
  den : Nat
  low : Nat
  value : Nat
  high : Nat
  closed : Bool

/-- The interval of `mantissa * 2 ^ exponent`, in quarters of the last binary place. Below a
power of two the numbers are twice as dense. -/
def rounding (mantissa : Nat) (exponent : Int) : Rounding where
  num := if exponent < 2 then 1 else Nat.pow 2 (exponent - 2).toNat
  den := if exponent < 2 then Nat.pow 2 (2 - exponent).toNat else 1
  low := 4 * mantissa - (if mantissa = Nat.pow 2 52 ∧ exponent > leastExponent then 1 else 2)
  value := 4 * mantissa
  high := 4 * mantissa + 2
  closed := mantissa % 2 = 0

def Rounding.holds (i : Rounding) (n d : Nat) : Bool :=
  let x := n * i.den
  let lo := i.low * i.num * d
  let hi := i.high * i.num * d
  if i.closed then lo ≤ x && x ≤ hi else lo < x && x < hi

def gridPoint (c : Nat) (p : Int) : Nat × Nat :=
  if p < 0 then (c, Nat.pow 10 (-p).toNat) else (c * Nat.pow 10 p.toNat, 1)

/-- The exponent of the leading decimal digit of `n / d`, at least `-fuel` for a small quotient. -/
def leadingExponent (n d : Nat) : Nat → Int
  | 0 => 0
  | fuel + 1 =>
    if d ≤ n then (decimalLength (n / d) : Int) - 1
    else leadingExponent (n * 10) d fuel - 1

/-- The point of the grid of step `10 ^ p` that is read as the number; of two the nearer, and
of two equally near the even one. -/
def Rounding.onGrid? (i : Rounding) (p : Int) : Option Nat :=
  let (vn, vd) := (i.value * i.num, i.den)
  let (sn, sd) := gridPoint 1 p
  let c := vn * sd / (vd * sn)
  let inside (c : Nat) : Bool := let (n, d) := gridPoint c p; i.holds n d
  match inside c && c != 0, inside (c + 1) with
  | true, true =>
    let twice := 2 * vn * sd
    let middle := (2 * c + 1) * vd * sn
    some (if twice < middle ∨ (twice = middle ∧ c % 2 = 0) then c else c + 1)
  | true, false => some c
  | false, true => some (c + 1)
  | false, false => none

def Rounding.search (i : Rounding) (leading : Int) (count : Nat) : Nat → Nat × Int
  | 0 => (i.value * i.num / i.den, 0)
  | fuel + 1 =>
    let p := leading - count
    match i.onGrid? p with
    | some c => (c, p)
    | none => i.search leading (count + 1) fuel

def shortest (mantissa : Nat) (exponent : Int) : Nat × Int :=
  let i := rounding mantissa exponent
  i.search (leadingExponent (i.value * i.num) i.den 400) 0 17

def exponentText (e : Int) : String :=
  let digits := Text.ofNat e.natAbs
  (if e < 0 then "-" else "+") ++ (if digits.length < 2 then "0" ++ digits else digits)

def layout (digits : List Char) (point : Int) : String :=
  if point ≤ -4 ∨ point > 16 then
    let mantissa := match digits with
      | d :: e :: rest => String.ofList (d :: '.' :: e :: rest)
      | ds => String.ofList ds
    mantissa ++ "e" ++ exponentText (point - 1)
  else if point ≤ 0 then
    "0." ++ String.ofList (List.replicate (-point).toNat '0' ++ digits)
  else
    let whole := digits.take point.toNat
    let fraction := digits.drop point.toNat
    String.ofList (whole ++ List.replicate (point.toNat - whole.length) '0') ++ "."
      ++ (if fraction.isEmpty then "0" else String.ofList fraction)

def text : Binary64 → String
  | .nan => "nan"
  | .infinite negative => if negative then "-inf" else "inf"
  | .finite negative m e =>
    (if negative then "-" else "") ++
      (if m = 0 then "0.0"
      else
        let (c, p) := shortest m e
        let digits := (Text.ofNat c).toList
        let kept := (digits.reverse.dropWhile (· == '0')).reverse
        layout kept ((digits.length : Int) + p))

end ApiBindings.Binary64
