import ApiBindings.Document.Display
import ApiBindings.Toml.Line

/-!
Values of configurations and the tables that hold them: arrays, tables on one line, and the
assignment of a value to a key. Everything nested is read by a reader of values that is given.
-/

namespace ApiBindings.Toml

/-- Reads a value; the flag says whether it is a tidy number. -/
abbrev ValueReader := Bool → List Char → Except Defect Value

/-- A text of several lines, or an array that ends with one, that a line begins. -/
structure Pending where
  key : String
  text : List Char
  isContinued : Bool

def Pending.start (key : String) (value : List Char) : Pending :=
  let isContinued := Text.endsEscaped value.reverse
  ⟨key, if isContinued then value.dropLast else value ++ ['\n'], isContinued⟩

def changeUnder {α : Type} (change : Value → Except Defect (Value × α)) :
    List String → Value → Except Defect (Value × α)
  | [], v => change v
  | key :: rest, .map label es => do
    let (inner, result) ← changeUnder change rest ((Entries.get? es key).getD (.ofEntries []))
    return (.map label (Entries.put es (.str key) inner), result)
  | _ :: _, _ => .error (.misuse .wrongKind)

/-- Gives a key its value. The value is read first, then the key must be new. -/
def assign (read : ValueReader) (line : List Char) (table : Value) :
    Except Defect (Value × Option Pending) := do
  let line ← Line.of line
  let (tables, key) ← keyPath line.key
  changeUnder (α := Option Pending) (fun inner => do
    let value ← if ← goesOn line.value then pure none else some <$> read line.isTidy line.value
    match inner with
    | .map label es =>
      if Entries.has es key then .error .malformed
      else
        match value with
        | some v => return (.map label (Entries.put es (.str key) v), none)
        | none => return (inner, some (.start key line.value))
    | _ => .error .malformed) tables table

/-- Whether the value of an assignment within a line is complete, told from its first and last
character. -/
def isComplete (value : List Char) : Except Defect Bool :=
  match value.head?, value.getLast? with
  | some a, some b =>
    .ok ((a == b && isQuote a) || a == '-' || Text.isDecimalDigit a
      || [['t', 'r', 'u', 'e'], ['f', 'a', 'l', 's', 'e']].contains value
      || (a == '[' && b == ']') || (a == '\x7b' && b == '\x7d'))
  | _, _ => .error (.misuse .missingItem)

/-- The assignments within a line: pieces between commas, joined until each has a value. -/
def assignments (piece : List Char) :
    List (List Char) → Except Defect (List (List Char))
  | [] => do
    if ← hasValue piece then return [piece] else .error .malformed
  | next :: rest => do
    if ← hasValue piece then return piece :: (← assignments next rest)
    else assignments (piece ++ ',' :: next) rest
where
  hasValue (piece : List Char) : Except Defect Bool :=
    if piece.contains '=' then isComplete (Text.trim ((piece.dropWhile (· != '=')).drop 1))
    else .error .malformed

def assignAll (read : ValueReader) (table : Value) : List (List Char) → Except Defect Value
  | [] => .ok table
  | line :: rest => do
    match ← assign read line table with
    | (table, none) => assignAll read table rest
    | (table, some _) => return table

def assignInline (read : ValueReader) (text : List Char) (table : Value) : Except Defect Value :=
  match Text.splitOn [','] (inner text) with
  | [] => .ok table
  | [piece] =>
    if (Text.trim piece).isEmpty then .ok table
    else do assignAll read table (← assignments piece [])
  | piece :: rest => do assignAll read table (← assignments piece rest)

/-! The elements of an array, as texts. -/

def isOpenText (piece : List Char) : Except Defect Bool :=
  let t := Text.trim piece
  match t.head?, t.getLast? with
  | some a, some b =>
    let isTriple := t.length > 2 && t.take 3 == [a, a, a]
    let behind := t.reverse.drop 1
    .ok (a != b || (isTriple && behind.head? != some a && (behind.drop 1).head? != some a))
  | _, _ => .error (.misuse .missingItem)

/-- The texts of an array: pieces between commas, joined until each is closed. The last piece is
looked at only if it was joined. -/
def joinTexts (isJoined : Bool) (piece : List Char) :
    List (List Char) → Except Defect (List (List Char))
  | [] => do
    if isJoined then
      if ← isOpenText piece then .error (.misuse .missingItem)
    return [piece]
  | next :: rest => do
    if ← isOpenText piece then joinTexts true (piece ++ ',' :: next) rest
    else return piece :: (← joinTexts false next rest)

inductive Spot where
  | inTable
  | behindTable
  | betweenTables

/-- The tables of an array; `table` is read backwards, and `depth` counts its open braces. -/
def tableTexts (table : List Char) (depth : Nat) (inText : Bool) (spot : Spot) :
    List Char → List (List Char)
  | [] => []
  | c :: rest =>
    match spot with
    | .behindTable => tableTexts [] depth inText .betweenTables rest
    | .betweenTables =>
      if c = '\x7b' then tableTexts [c] depth inText .inTable rest
      else tableTexts [] depth inText .betweenTables rest
    | .inTable =>
      let inText := if isQuote c then !inText || Text.endsEscaped table else inText
      let depth := if !inText && c == '\x7b' then depth + 1 else depth
      if inText || c != '\x7d' then tableTexts (c :: table) depth inText .inTable rest
      else if depth > 1 then tableTexts (c :: table) (depth - 1) inText .inTable rest
      else (c :: table).reverse :: tableTexts [] depth inText .behindTable rest

def splitOutside (depth : Int) (piece : List Char) : List Char → List (List Char)
  | [] => [piece.reverse]
  | c :: rest =>
    if c = ',' ∧ depth = 0 then piece.reverse :: splitOutside depth [] rest
    else
      let depth := if c = '[' then depth + 1 else if c = ']' then depth - 1 else depth
      splitOutside depth (c :: piece) rest

/-- The elements of an array, which is given with its brackets. What its first element is decides
how they are told apart. -/
def elementTexts (text : List Char) : Except Defect (List (List Char)) :=
  let content := inner text
  let first := Text.trim content
  if content.contains '[' && first.head? == some '[' then .ok (splitOutside 0 [] content)
  else if first.head? = some '\x7b' then
    match content with
    | [] => .ok []
    | c :: rest => .ok (tableTexts [c] (if c = '\x7b' then 1 else 0) false .inTable rest)
  else
    match Text.splitOn [','] content with
    | [] => .ok []
    | piece :: rest =>
      if (first.head?.map isQuote) = some true then joinTexts false piece rest
      else .ok (piece :: rest)

/-- The kind of an element. All elements of an array are of one kind, and a date and a point in time
are. -/
def elementKind : Value → String
  | .scalar (.dateTime t) => (Value.scalar (.date t.date)).kindName
  | v => v.kindName

def readElements (read : ValueReader) (kind : Option String) :
    List (List Char) → Except Defect (List Value)
  | [] => .ok []
  | text :: rest => do
    let text := Text.trim text
    if text.isEmpty then readElements read kind rest
    else
      let v ← read true text
      if kind = none ∨ kind = some (elementKind v) then
        return v :: (← readElements read (some (elementKind v)) rest)
      else .error .malformed

/-- A value whose nesting is at most as deep as the first argument. -/
def readNested : Nat → ValueReader
  | 0, _, _ => .error .malformed
  | n + 1, isTidy, text =>
    match text with
    | [] => .error .malformed
    | c :: _ =>
      if isQuote c then do return .str (← readQuoted c text)
      else if c = '[' then do
        return .list (← readElements (readNested n) none (← elementTexts text))
      else if c = '\x7b' then assignInline (readNested n) text (.ofEntries [])
      else do return .scalar (← readBare isTidy text)

/-- A value. No value nests deeper than its text is long. -/
def readValue : ValueReader := fun isTidy text => readNested (text.length + 1) isTidy text

end ApiBindings.Toml
