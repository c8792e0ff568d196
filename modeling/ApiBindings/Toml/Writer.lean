import ApiBindings.Document.Display
import ApiBindings.Toml.Header

/-!
Writing a table as a configuration text. Values come before the tables inside, each of which has a
header with its full name.
-/

namespace ApiBindings.Toml

/-- A text joined from its pieces between the marks of hexadecimal escapes. A mark behind an odd
number of backslashes becomes one of a code point of four digits, any other mark the letter that it
ends with. -/
def joinMarks (piece : List Char) : List (List Char) → Except Defect (List Char)
  | [] => .ok piece
  | next :: rest =>
    if piece.isEmpty then
      match rest with
      | [] => .error (.misuse .missingItem)
      | after :: rest => do joinMarks (← joined next after) rest
    else do joinMarks (← joined piece next) rest
where
  joined (before after : List Char) : Except Defect (List Char) :=
    let before := Text.contract '\\' '\\' '\\' before
    if before.isEmpty then .error (.misuse .missingItem)
    else if Text.endsEscaped before.reverse then .ok (before ++ ['u', '0', '0'] ++ after)
    else .ok (before ++ 'x' :: after)

def quoted (literal : String) : Except Defect String := do
  let content := match literal.toList with
    | '\'' :: _ => Text.expand '"' ['\\', '"'] (Text.contract '\\' '\'' '\'' (inner literal.toList))
    | '"' :: _ => inner literal.toList
    | cs => cs
  match Text.splitOn ['\\', 'x'] content with
  | [] => return "\"\""
  | piece :: rest => return "\"" ++ String.ofList (← joinMarks piece rest) ++ "\""

def floatText (x : Binary64) : String :=
  let shortened (sign : Char) (s : List Char) : List Char :=
    Text.glue ['e', sign] (Text.splitOn ['e', sign, '0'] s)
  String.ofList (shortened '-' (shortened '+' x.text.toList))

mutual

/-- A value on one line. Of a table inside an array only the keys are written. -/
def valueText : Value → Except Defect String
  | .scalar (.str s) => quoted (Text.literal s)
  | .scalar (.bool b) => .ok (if b then "true" else "false")
  | .scalar (.int n) => .ok (Text.ofInt n)
  | .scalar (.float x) => .ok (floatText x)
  | .scalar s => quoted s.literal
  | .list items => do return "[" ++ (← itemTexts items) ++ "]"
  | .map _ es => do
    let keys ← es.mapM fun e => do return " " ++ (← quoted e.1.literal) ++ ","
    return "[" ++ String.join keys ++ "]"
  | v => quoted v.literal

def itemTexts : List Value → Except Defect String
  | [] => .ok ""
  | v :: rest => do
    let text ← valueText v
    return " " ++ text ++ "," ++ (← itemTexts rest)

end

structure Section where
  name : String
  entries : Entries

def keyText (key : Scalar) : Except Defect String :=
  let text := key.text
  if text ≠ "" ∧ text.toList.all isBareNameChar then .ok text else quoted (Text.literal text)

def dotted (name : String) : String :=
  if name = "" ∨ Text.endsWith "." name then name else name ++ "."

def tableEntries : Value → Except Defect Entries
  | .map _ es => .ok es
  | .list [] => .ok []
  | .scalar (.str s) => if s = "" then .ok [] else .error (.misuse .wrongKind)
  | _ => .error (.misuse .wrongKind)

/-- Tables level by level. A header is written for a table with values of its own. -/
def nestedText (write : String → Entries → Except Defect (String × List Section)) (base : String) :
    Nat → List Section → Except Defect String
  | 0, _ => .ok ""
  | _, [] => .ok ""
  | n + 1, sections => do
    let parts ← sections.mapM fun s => do
      let (text, inner) ← write (base ++ "." ++ s.name) s.entries
      return (if text = "" then "" else "[" ++ base ++ "." ++ s.name ++ "]\n" ++ text,
        inner.map fun i => { i with name := s.name ++ "." ++ i.name })
    let deeper ← nestedText write base n (parts.flatMap (·.2))
    return String.join (parts.map (·.1)) ++ deeper

def arrayText (write : String → Entries → Except Defect (String × List Section)) (depth : Nat)
    (name : String) (items : List Value) : Except Defect String := do
  let parts ← items.mapM fun item => do
    let (text, inner) ← write name (← tableEntries item)
    let nested ← nestedText write name depth inner
    let (first, second) := if Text.beginsWith "[" text then ("", text) else (text, "")
    return "[[" ++ name ++ "]]\n" ++ first ++ "\n" ++ second ++ nested
  return String.join parts

def isTableArray : Value → Bool
  | .list items => items.any Value.isMap
  | _ => false

structure TableText where
  values : String
  arrays : String
  sections : List Section

def TableText.add (t : TableText) (arrayOf : String → List Value → Except Defect String)
    (entry : Scalar × Value) : Except Defect TableText := do
  let key ← keyText entry.1
  match entry.2 with
  | .map _ inner => return { t with sections := t.sections ++ [⟨key, inner⟩] }
  | .null => return t
  | v =>
    if isTableArray v then
      let text ← arrayOf key (match v with | .list items => items | _ => [])
      return { t with arrays := t.arrays ++ text }
    else
      let text ← valueText v
      return { t with values := t.values ++ key ++ " = " ++ text ++ "\n" }

/-- The values of a table and behind them its arrays of tables, and the tables inside. The table
nests at most as deep as the first argument. -/
def writeTable : Nat → String → Entries → Except Defect (String × List Section)
  | 0, _, _ => .ok ("", [])
  | n + 1, name, es => do
    let arrayOf := fun key items => arrayText (writeTable n) n (dotted name ++ key) items
    let t ← es.foldlM (fun t e => TableText.add t arrayOf e) ⟨"", "", []⟩
    return (t.values ++ t.arrays, t.sections)

def spaced (text : String) : String :=
  if text = "" ∨ Text.endsWith "\n\n" text then text else text ++ "\n"

/-- Adds a section to the text so far and to the sections of the next level. A table without
values has a header only if there is no table in it. -/
def addSection (depth : Nat) (written : String × List Section) (s : Section) :
    Except Defect (String × List Section) := do
  let (text, inner) ← writeTable depth s.name s.entries
  let below := inner.map fun i => { i with name := s.name ++ "." ++ i.name }
  return (if text ≠ "" ∨ inner.isEmpty then spaced written.1 ++ "[" ++ s.name ++ "]\n" ++ text
    else written.1, written.2 ++ below)

def writeSections (depth : Nat) (written : String) : Nat → List Section → Except Defect String
  | 0, _ => .ok written
  | _, [] => .ok written
  | n + 1, sections => do
    let (written, below) ← sections.foldlM (addSection depth) (written, [])
    writeSections depth written n below

/-- The text of a table. No table nests deeper than its literal form is long. -/
def write (es : Entries) : Except Defect String := do
  let depth := (Value.ofEntries es).literal.length + 1
  let (text, sections) ← writeTable depth "" es
  writeSections depth text depth sections

end ApiBindings.Toml
