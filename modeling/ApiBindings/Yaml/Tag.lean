import ApiBindings.Yaml.Glyph

/-!
Tags, and the tag that a plain scalar has by its form. Main rule: a scalar that looks like a truth
value, a number, a date, nothing or a merge is one, and every other scalar is text.
-/

namespace ApiBindings.Yaml

inductive Tag where
  | null
  | bool
  | int
  | float
  | timestamp
  | binary
  | str
  | seq
  | map
  | set
  | orderedPairs
  | merge
  | value
  | unknown
deriving DecidableEq

def standardRoot : String := "tag:yaml.org,2002:"

def standardTags : List (String × Tag) := [
  ("null", .null), ("bool", .bool), ("int", .int), ("float", .float), ("timestamp", .timestamp),
  ("binary", .binary), ("str", .str), ("seq", .seq), ("map", .map), ("set", .set),
  ("omap", .orderedPairs), ("pairs", .orderedPairs), ("merge", .merge), ("value", .value)]

def Tag.ofName (name : String) : Tag :=
  match Text.dropStart? standardRoot name with
  | some short => (standardTags.lookup short).getD .unknown
  | none => .unknown

namespace PlainForm

def afterSign : List Char → List Char
  | '-' :: rest => rest
  | '+' :: rest => rest
  | s => s

def isDigitOrUnderscore (c : Char) : Bool := Text.isDecimalDigit c || c == '_'

def startsWithDigit : List Char → Bool
  | c :: _ => Text.isDecimalDigit c
  | [] => false

def words : List (String × Tag) := [
  ("yes", .bool), ("Yes", .bool), ("YES", .bool), ("no", .bool), ("No", .bool), ("NO", .bool),
  ("true", .bool), ("True", .bool), ("TRUE", .bool), ("false", .bool), ("False", .bool),
  ("FALSE", .bool), ("on", .bool), ("On", .bool), ("ON", .bool), ("off", .bool), ("Off", .bool),
  ("OFF", .bool), ("~", .null), ("null", .null), ("Null", .null), ("NULL", .null), ("", .null),
  (".nan", .float), (".NaN", .float), (".NAN", .float), ("<<", .merge), ("=", .value)]

/-- One or two digits below sixty after each colon, up to the end or a point. -/
def isSexagesimal : List Char → Bool
  | [] => false
  | s =>
    let parts := Text.pieces (· == ':') s
    match parts with
    | first :: second :: rest =>
      startsWithDigit first && first.all isDigitOrUnderscore
        && (second :: rest).all fun part => match part with
          | [d] => Text.isDecimalDigit d
          | [t, d] => '0' ≤ t && t ≤ '5' && Text.isDecimalDigit d
          | _ => false
    | _ => false

def isInt (s : List Char) : Bool :=
  match afterSign s with
  | [] => false
  | '0' :: 'b' :: digits => !digits.isEmpty && digits.all fun c => c == '0' || c == '1' || c == '_'
  | '0' :: 'x' :: digits =>
    !digits.isEmpty && digits.all fun c => (Text.hexValue? c).isSome || c == '_'
  | '0' :: digits => digits.all fun c => ('0' ≤ c && c ≤ '7') || c == '_'
  | digits =>
    startsWithDigit digits && (digits.all isDigitOrUnderscore || isSexagesimal digits)

def isExponent : List Char → Bool
  | [] => true
  | e :: sign :: digits =>
    (e == 'e' || e == 'E') && (sign == '-' || sign == '+') && !digits.isEmpty
      && digits.all Text.isDecimalDigit
  | _ => false

/-- A number with a point, which has a digit on one side. Only one that begins with a digit may
have a sign. -/
def isFloat (s : List Char) : Bool :=
  let digits := afterSign s
  let whole := digits.takeWhile (· != '.')
  match digits.dropWhile (· != '.') with
  | '.' :: rest =>
    let fraction := rest.takeWhile isDigitOrUnderscore
    let after := rest.dropWhile isDigitOrUnderscore
    if whole.isEmpty then
      (s.head? == some '.' && startsWithDigit fraction && isExponent after)
        || ["inf", "Inf", "INF"].contains (String.ofList rest)
    else if isSexagesimal whole then after.isEmpty
    else startsWithDigit whole && whole.all isDigitOrUnderscore && isExponent after
  | _ => false

end PlainForm

/-- A point in time as written; the fields after the date may be missing. -/
structure Stamp where
  year : Nat
  month : List Char
  day : List Char
  time : Option (Nat × Nat × Nat)
  fraction : List Char
  offset : Option (Bool × Nat × Nat)

namespace Stamp

def digits (most : Nat) (s : List Char) : List Char × List Char :=
  let run := (s.take most).takeWhile Text.isDecimalDigit
  (run, s.drop run.length)

def twoDigits? (s : List Char) : Option (Nat × List Char) :=
  let (run, rest) := digits 2 s
  if run.length = 2 then some (Text.natOfDigits run, rest) else none

def oneOrTwo? (s : List Char) : Option (List Char × List Char) :=
  let (run, rest) := digits 2 s
  if run.isEmpty then none else some (run, rest)

def readOffset? (s : List Char) : Option (Option (Bool × Nat × Nat)) :=
  match s.dropWhile isBlank with
  | [] => if s.isEmpty then some none else none
  | ['Z'] => some (some (false, 0, 0))
  | sign :: rest =>
    if sign = '-' ∨ sign = '+' then do
      let (hours, rest) ← oneOrTwo? rest
      let minutes ← match rest with
        | [] => some 0
        | ':' :: rest => do
          let (minutes, rest) ← twoDigits? rest
          if rest.isEmpty then some minutes else none
        | _ => none
      return some (sign == '-', Text.natOfDigits hours, minutes)
    else none

def readTime? (s : List Char) :
    Option ((Nat × Nat × Nat) × List Char × Option (Bool × Nat × Nat)) := do
  let (hour, s) ← oneOrTwo? s
  let s ← Text.after? [':'] s
  let (minute, s) ← twoDigits? s
  let s ← Text.after? [':'] s
  let (second, s) ← twoDigits? s
  let (fraction, s) := match s with
    | '.' :: rest => (rest.takeWhile Text.isDecimalDigit, rest.dropWhile Text.isDecimalDigit)
    | s => ([], s)
  return ((Text.natOfDigits hour, minute, second), fraction, ← readOffset? s)

def read? (s : List Char) : Option Stamp := do
  let (year, s) := digits 4 s
  if year.length ≠ 4 then none
  let s ← Text.after? ['-'] s
  let (month, s) ← oneOrTwo? s
  let s ← Text.after? ['-'] s
  let (day, s) ← oneOrTwo? s
  let date : Stamp := ⟨Text.natOfDigits year, month, day, none, [], none⟩
  match s with
  | [] => return date
  | c :: rest =>
    let time ← if c = 'T' ∨ c = 't' then some rest
      else if isBlank c then some (rest.dropWhile isBlank)
      else none
    let (time, fraction, offset) ← readTime? time
    return { date with time := some time, fraction := fraction, offset := offset }

/-- Whether a plain scalar of this form is a point in time: a date alone needs all its digits. -/
def isComplete (s : Stamp) : Bool := s.time.isSome || (s.month.length == 2 && s.day.length == 2)

end Stamp

/-- The tag of a plain scalar. One line feed at its end does not count. -/
def Tag.ofPlain (text : List Char) : Tag :=
  if text.head? = some '\n' then .str
  else
    let s := Text.dropFinal '\n' text
    match PlainForm.words.lookup (String.ofList s) with
    | some tag => tag
    | none =>
      if PlainForm.isFloat s then .float
      else if PlainForm.isInt s then .int
      else if ((Stamp.read? s).map Stamp.isComplete).getD false then .timestamp
      else .str

end ApiBindings.Yaml
