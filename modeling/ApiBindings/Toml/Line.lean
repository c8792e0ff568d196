import ApiBindings.Toml.Bare
import ApiBindings.Toml.Quoted

/-!
The parts of a configuration line: its key, its value, and whether the value goes on behind it.
-/

namespace ApiBindings.Toml

/-- Pieces between single quotes, with pieces between double quotes joined to the last one until
their number is odd. -/
def closeSingle (singles : List (List Char)) :
    List (List Char) → List (List Char) × List (List Char)
  | [] => (singles, [])
  | piece :: rest =>
    if singles.length % 2 = 0 then
      let last := singles.getLast?.getD [] ++ '"' :: piece
      closeSingle (singles.dropLast ++ Text.splitOn ['\''] last) rest
    else (singles, piece :: rest)

/-- The pieces of a line between its quotes. Every second one is quoted. -/
def quotePieces (line : List Char) : List (List Char) :=
  let halves : List (List Char) → List (List Char)
    | [] => []
    | first :: rest => Text.splitOn ['\''] first ++ rest
  match Text.splitOn ['"'] line with
  | first :: second :: rest =>
    if first.contains '\'' then
      let (singles, left) := closeSingle (Text.splitOn ['\''] first) (second :: rest)
      singles ++ halves left
    else halves (first :: second :: rest)
  | pieces => halves pieces

def occurrencesBefore (sep : List Char) (isQuoted : Bool) : List (List Char) → Nat
  | [] => 0
  | piece :: rest =>
    if !isQuoted && Text.occursIn sep piece then 0
    else Text.occurrences sep piece + occurrencesBefore sep (!isQuoted) rest

/-- How many separators a line is split at, so that the last piece follows the first separator
outside of quotes. -/
def splitsUpTo (sep line : List Char) : Nat := occurrencesBefore sep false (quotePieces line) + 1

def groupsDigits : List Char → Bool
  | a :: '_' :: b :: rest =>
    Text.isDecimalDigit a && Text.isDecimalDigit b && groupsDigits (b :: rest)
  | a :: rest => a != '_' && groupsDigits rest
  | [] => true

/-- Whether a text is a float, an integer included. -/
def isFloat (s : List Char) : Bool :=
  groupsDigits (Text.trim s) && (Numeric.readFloat? (s.filter (· != '_'))).isSome

/-- Whether the value of a line is where it is thought to be: its first character or its whole form
tells. -/
def isValueStart (s : List Char) : Bool :=
  match s with
  | [] => true
  | c :: _ =>
    [' ', '\t', '\'', '"', '[', '\x7b'].contains c
      || [['t', 'r', 'u', 'e'], ['f', 'a', 'l', 's', 'e']].contains (Text.trim s)
      || isFloat s || (readDate? s).isSome || (readClock? s).isSome

/-- The pieces of a line around its equals signs, the last of which is the value, and whether the
value is a tidy number. As long as it is no value, it is looked for behind the next sign. -/
def settleValue (line : List Char) (splits : Nat) (parts : List (List Char)) (isTidy : Bool) :
    Nat → Except Defect (List (List Char) × Bool)
  | 0 => .error .malformed
  | n + 1 =>
    let last := parts.getLast?.getD []
    if isValueStart last then .ok (parts, isTidy)
    else
      let next := Text.splitMost ['='] (splits + 1) line
      let value := next.getLast?.getD []
      if value = last then .error .malformed
      else settleValue line (splits + 1) next (isTidy && isTidyNumber value) n

def ungrouped (s : List Char) : List Char :=
  if (s.head?.map Text.isDecimalDigit) = some true then s.filter (· != '_') else s

structure Line where
  key : List Char
  value : List Char
  isTidy : Bool

def Line.of (line : List Char) : Except Defect Line := do
  let splits := splitsUpTo ['='] line
  let parts := Text.splitMost ['='] splits line
  let value := parts.getLast?.getD []
  let (parts, isTidy) ← settleValue line splits (parts.dropLast ++ [ungrouped value])
    (isTidyNumber value) (line.length + 2)
  return ⟨Text.trim (Text.glue ['='] parts.dropLast), Text.trim (parts.getLast?.getD []), isTidy⟩

/-- The levels of a key with dots; quoted levels may hold dots. -/
def levelsOf (isQuoted : Bool) : List (List Char) → List (List Char)
  | [] => []
  | piece :: rest =>
    (if isQuoted then [piece] else (Text.splitOn ['.'] piece).map Text.trim)
      ++ levelsOf (!isQuoted) rest

def withoutTrailingEmpty (levels : List (List Char)) : List (List Char) :=
  (levels.reverse.dropWhile List.isEmpty).reverse

def keyPath (key : List Char) : Except Defect (List String × String) :=
  if key.contains '.' then
    let levels := if key.any isQuote then levelsOf false (quotePieces key)
      else Text.splitOn ['.'] key
    let levels := withoutTrailingEmpty levels
    match levels.getLast? with
    | none => .error (.misuse .missingItem)
    | some last =>
      let tables := levels.dropLast.filter fun level => !level.isEmpty
      .ok (tables.map String.ofList, String.ofList (Text.trim last))
  else
    match key.head?, key.getLast? with
    | some a, some b =>
      if isQuote a && a == b then do return ([], String.ofList (← unescape (inner key)))
      else .ok ([], String.ofList key)
    | _, _ => .error (.misuse .missingItem)

def beginsTexts (value : List Char) : Bool :=
  match Text.trim (inner value) with
  | [] => false
  | c :: _ => isQuote c

/-- The pieces of an array, which are read backwards, joined from the end on until one begins with
a quote. -/
def lastText (piece : List Char) : List (List Char) → Except Defect (List Char)
  | [] => .ok piece
  | before :: rest =>
    match piece with
    | [] => .error (.misuse .missingItem)
    | c :: _ => if isQuote c then .ok piece else lastText (before ++ ',' :: piece) rest

def isOpenLong (s : List Char) : Except Defect Bool :=
  match s with
  | [] => .error (.misuse .missingItem)
  | a :: rest =>
    if !isQuote a then .ok false
    else
      match rest with
      | [] => .error (.misuse .missingItem)
      | b :: rest =>
        if b != a then .ok false
        else
          match rest with
          | [] => .error (.misuse .missingItem)
          | c :: _ => .ok (c == a && !(s.length > 5 && s.reverse.take 3 == [a, a, a]))

def goesOn (value : List Char) : Except Defect Bool := do
  if value.length < 3 then return false
  if value.head? = some '[' && value.getLast? != some ']' && beginsTexts value then
    match (Text.splitOn [','] (Text.trim (value.drop 1))).reverse with
    | [] => return false
    | last :: before => isOpenLong (← lastText last before)
  else isOpenLong value

end ApiBindings.Toml
