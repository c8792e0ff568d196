import ApiBindings.Fault
import ApiBindings.Document.Value
import ApiBindings.Numeric.Written

/-!
Configuration values without quotes and brackets: truth values, numbers, dates and times.
-/

namespace ApiBindings.Toml

def slice (first last : Nat) (s : List Char) : List Char := (s.take last).drop first

def readNatural? (s : List Char) : Option Nat := do
  let n ← Numeric.readInteger? 10 s
  if 0 ≤ n then some n.toNat else none

def readOffset? (s : List Char) : Option Int := do
  if s = ['Z'] then return 0
  let hours ← Numeric.readInteger? 10 (slice 1 3 s)
  let minutes ← Numeric.readInteger? 10 (slice 4 6 s)
  return (if s.head? = some '-' then -1 else 1) * (hours * 3600 + minutes * 60)

def splitFraction (s : List Char) : List Char × Option (List Char) :=
  if s.getLast? = some 'Z' ∨ s.getLast? = some 'z' then (s.dropLast, some ['Z'])
  else
    let sign := if s.contains '+' then '+' else '-'
    let zone := s.dropWhile (· != sign)
    (s.takeWhile (· != sign), if zone.isEmpty then none else some zone)

def readFraction? (digits : List Char) : Option Nat := do
  let n ← readNatural? digits
  return if digits.length ≤ 6 then n * Nat.pow 10 (6 - digits.length)
    else n / Nat.pow 10 (digits.length - 6)

def readTail? (s : List Char) : Option (Nat × Option Int) :=
  match s with
  | [] => some (0, none)
  | '.' :: rest => do
    let (digits, zone) := splitFraction rest
    let offset ← match zone with
      | some z => some <$> readOffset? z
      | none => some none
    return (← readFraction? digits, offset)
  | zone => do return (0, some (← readOffset? zone))

/-- A date of ten characters, or else a point in time. Neither microseconds nor an offset are
taken from a malformed end. -/
def readDate? (s : List Char) : Option Scalar := do
  if !(s.drop 1).contains '-' then none
  let date ← Date.of? (← readNatural? (s.take 4)) (← readNatural? (slice 5 7 s))
    (← readNatural? (slice 8 10 s))
  if s.length = 10 then return .date date
  let clock ← TimeOfDay.of? (← readNatural? (slice 11 13 s)) (← readNatural? (slice 14 16 s))
    (← readNatural? (slice 17 19 s)) 0
  let (microsecond, offset) := (readTail? (s.drop 19)).getD (0, none)
  if 1000000 ≤ microsecond then none
  return .dateTime ⟨date, clock.hour, clock.minute, clock.second, microsecond, offset⟩

/-- Hours, minutes, seconds and a fraction of three to six digits, which counts microseconds; what
follows them is not looked at. -/
def readClock? (s : List Char) : Option (Nat × Nat × Nat × Nat) :=
  match s with
  | a :: b :: ':' :: c :: d :: ':' :: e :: f :: rest =>
    if [a, b, c, d, e, f].all Text.isDecimalDigit then
      let fraction := match rest with
        | '.' :: ds => (ds.takeWhile Text.isDecimalDigit).take 6
        | _ => []
      some (Text.natOfDigits [a, b], Text.natOfDigits [c, d], Text.natOfDigits [e, f],
        if fraction.length < 3 then 0 else Text.natOfDigits fraction)
    else none
  | _ => none

/-- An integer whose base is told by its first characters. A decimal one begins with a zero only
if it is zero. -/
def readInteger? (s : List Char) : Option Int :=
  let digits := (Numeric.splitSign (Text.trim s)).2
  match digits with
  | '0' :: c :: _ =>
    let mark := c.toLower
    if mark = 'x' then Numeric.readInteger? 16 s
    else if mark = 'o' then Numeric.readInteger? 8 s
    else if mark = 'b' then Numeric.readInteger? 2 s
    else if digits.all (· == '0') then some 0
    else none
  | _ => Numeric.readInteger? 10 s

/-- A float; a point needs digits on both of its sides. -/
def readFloat? (s : List Char) : Option Binary64 :=
  if s.contains '.' && ((s.dropWhile (· != '.')).drop 1).isEmpty then none
  else if (s.head?.map Text.isDecimalDigit) = some true then Numeric.readFloat? s
  else none

/-- The difference of zero and a number. A difference is never the negative zero. -/
def negated : Scalar → Scalar
  | .int n => .int (-n)
  | .float (.finite b m e) => .float (.finite (!b && m != 0) m e)
  | .float (.infinite b) => .float (.infinite !b)
  | s => s

def readUnsigned? (s : List Char) : Option Scalar :=
  if s.contains '.' || (!s.contains 'x' && (s.contains 'e' || s.contains 'E')) then
    .float <$> readFloat? s
  else
    let word := Text.lowerAscii (String.ofList s)
    if word = "inf" ∨ word = "nan" then .float <$> Numeric.readFloat? s
    else .int <$> readInteger? s

def readNumber? (s : List Char) : Option Scalar :=
  let (negative, digits) := Numeric.splitSign s
  let value := readUnsigned? (digits.filter (· != '_'))
  if negative then negated <$> value else value

def isTidyNumber (s : List Char) : Bool :=
  let s := Text.trim s
  let digits := (Numeric.splitSign s).2
  let hasSign := digits.length < s.length
  !s.isEmpty && s.head? != some '_' && s.getLast? != some '_'
    && !Text.occursIn ['_', '.'] s && !Text.occursIn ['.', '_'] s
    && (s.length == 1
      || !(s.head? == some '0' && !(['.', 'o', 'b', 'x'].any fun c => s[1]? == some c))
        && !(hasSign && digits.length > 1 && digits.head? == some '0' && digits[1]? != some '.')
        && !Text.occursIn ['_', '_'] digits)

/-- The value of a text without quotes and brackets. A number counts only if it is tidy. -/
def readBare (isTidy : Bool) (s : List Char) : Except Defect Scalar :=
  let word := Text.lowerAscii (String.ofList s)
  if word = "true" ∨ word = "false" then
    if s = word.toList then .ok (.bool (word = "true")) else .error .malformed
  else
    match readClock? s with
    | some (hour, minute, second, microsecond) =>
      match TimeOfDay.of? hour minute second microsecond with
      | some t => .ok (.time t)
      | none => .error .malformed
    | none =>
      match readDate? s with
      | some date => .ok date
      | none =>
        match if isTidy then readNumber? s else none with
        | some n => .ok n
        | none => .error .malformed

end ApiBindings.Toml
