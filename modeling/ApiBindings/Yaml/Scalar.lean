import ApiBindings.Document.Value
import ApiBindings.Numeric.Written
import ApiBindings.Yaml.Tag

/-!
The values of scalars with a tag. A text that does not have the form of its tag is a fault.
-/

namespace ApiBindings.Yaml

def withoutUnderscores (s : List Char) : List Char := s.filter (· != '_')

def valid {α : Type} : Option α → Except Defect α
  | some a => .ok a
  | none => .error (.misuse .invalidValue)

def sexagesimalInt? (s : List Char) : Option Int := do
  let places ← (Text.pieces (· == ':') s).mapM (Numeric.readInteger? 10)
  return places.foldl (fun n place => n * 60 + place) 0

def sexagesimalFloat? (s : List Char) : Option Binary64 := do
  let places ← (Text.pieces (· == ':') s).mapM Numeric.readFloat?
  let (total, _) := places.reverse.foldl
    (fun (total, base) place => (total.add (place.scale base), base * 60)) (Binary64.zero false, 1)
  return total

/-- The sign of a number and the text after it; an empty text has no sign to look at. -/
def signed (s : List Char) : Except Defect (Bool × List Char) :=
  match s with
  | [] => .error (.misuse .missingItem)
  | s => .ok (Numeric.splitSign s)

def readInt (text : List Char) : Except Defect Int := do
  let (negative, s) ← signed (withoutUnderscores text)
  let n ← match s with
    | [] => .error (.misuse .missingItem)
    | ['0'] => pure 0
    | '0' :: 'b' :: digits => valid (Numeric.readInteger? 2 digits)
    | '0' :: 'x' :: digits => valid (Numeric.readInteger? 16 digits)
    | '0' :: rest => valid (Numeric.readInteger? 8 ('0' :: rest))
    | s => valid (if s.contains ':' then sexagesimalInt? s else Numeric.readInteger? 10 s)
  return if negative then -n else n

def readFloat (text : List Char) : Except Defect Binary64 := do
  let (negative, s) ← signed ((withoutUnderscores text).map Char.toLower)
  if s = ['.', 'n', 'a', 'n'] then return .nan
  let x ←
    if s = ['.', 'i', 'n', 'f'] then pure (.infinite false)
    else valid (if s.contains ':' then sexagesimalFloat? s else Numeric.readFloat? s)
  return if negative then x.negate else x

def truthWords : List (String × Bool) := [
  ("yes", true), ("no", false), ("true", true), ("false", false), ("on", true), ("off", false)]

def readBool (text : List Char) : Except Defect Bool :=
  match truthWords.lookup (Text.lowerAscii (String.ofList text)) with
  | some b => .ok b
  | none => .error (.misuse .missingKey)

def microseconds (fraction : List Char) : Nat :=
  Text.natOfDigits ((fraction ++ List.replicate 6 '0').take 6)

def offsetSeconds (negative : Bool) (hours minutes : Nat) : Except Defect Int :=
  let seconds := hours * 3600 + minutes * 60
  if seconds < 86400 then .ok (if negative then -(seconds : Int) else seconds)
  else .error (.misuse .invalidValue)

/-- A date, or a point in time. The offset is looked at before the date. -/
def readTimestamp (text : List Char) : Except Defect Scalar := do
  match Stamp.read? (Text.dropFinal '\n' text) with
  | none => .error (.misuse .noSuchOperation)
  | some stamp =>
    let offset ← match stamp.offset with
      | some (negative, hours, minutes) => some <$> offsetSeconds negative hours minutes
      | none => pure none
    let date ← valid
      (Date.of? stamp.year (Text.natOfDigits stamp.month) (Text.natOfDigits stamp.day))
    match stamp.time with
    | none => return .date date
    | some (hour, minute, second) =>
      if hour < 24 ∧ minute < 60 ∧ second < 60 then
        return .dateTime ⟨date, hour, minute, second, microseconds stamp.fraction, offset⟩
      else .error (.misuse .invalidValue)

def sextet? (c : Char) : Option Nat :=
  if 'A' ≤ c ∧ c ≤ 'Z' then some (c.toNat - 65)
  else if 'a' ≤ c ∧ c ≤ 'z' then some (c.toNat - 71)
  else if '0' ≤ c ∧ c ≤ '9' then some (c.toNat + 4)
  else if c = '+' then some 62
  else if c = '/' then some 63
  else none

/-- The bytes of groups of four characters, from the place `place` within a group on; `held` is
what is left of the last character. Other characters are passed over, and padding that completes
a group ends the text. -/
def base64 (place held pads : Nat) : List Char → Except Defect (List UInt8)
  | [] => if place = 0 then .ok [] else .error .malformed
  | c :: rest =>
    if c = '=' then
      if place ≥ 2 ∧ place + pads + 1 ≥ 4 then .ok []
      else base64 place held (if place ≥ 2 then pads + 1 else pads) rest
    else
      match sextet? c with
      | none => base64 place held pads rest
      | some bits =>
        match place with
        | 0 => base64 1 bits 0 rest
        | 1 => do return UInt8.ofNat (held * 4 + bits / 16) :: (← base64 2 (bits % 16) 0 rest)
        | 2 => do return UInt8.ofNat (held * 16 + bits / 4) :: (← base64 3 (bits % 4) 0 rest)
        | _ => do return UInt8.ofNat (held * 64 + bits) :: (← base64 0 0 0 rest)

def readBinary (text : List Char) : Except Defect (List UInt8) :=
  if text.all fun c => c.toNat < 0x80 then base64 0 0 0 text else .error .malformed

def readScalar (tag : Tag) (text : String) : Except Defect Scalar :=
  match tag with
  | .null => .ok .null
  | .bool => return .bool (← readBool text.toList)
  | .int => return .int (← readInt text.toList)
  | .float => return .float (← readFloat text.toList)
  | .timestamp => readTimestamp text.toList
  | .binary => return .bytes (← readBinary text.toList)
  | .str => .ok (.str text)
  | _ => .error .malformed

end ApiBindings.Yaml
