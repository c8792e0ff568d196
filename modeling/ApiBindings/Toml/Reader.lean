import ApiBindings.Toml.Header
import ApiBindings.Toml.Layout

/-!
Reading a configuration text, line by line, into the table that it describes.
-/

namespace ApiBindings.Toml

structure Reading where
  root : Value
  steps : List Step
  implicit : List String
  pending : Option Pending

namespace Reading

def start : Reading := ⟨.ofEntries [], [], [], none⟩

def change (r : Reading) (f : Value → Except Defect (Value × Option Pending)) :
    Except Defect Reading := do
  let (root, pending) ← changeAt f r.steps r.root
  return { r with root := root, pending := pending }

def closes (text line : List Char) : Except Defect Bool :=
  match text.head? with
  | some '[' =>
    match line.getLast? with
    | some c => .ok (c == ']')
    | none => .error (.misuse .missingItem)
  | some q => .ok (line.length > 2 && line.reverse.take 3 == [q, q, q])
  | none => .ok false

/-- Adds a line to the pending text. Its white space counts, unless the line is joined. -/
def continued (r : Reading) (p : Pending) (line : List Char) : Except Defect Reading := do
  let line := if p.isContinued || !p.text.contains '\n' then Text.trim line else line
  if line.isEmpty && p.isContinued then return r
  let text := p.text ++ line
  if ← closes text line then
    let value ← readValue true text
    r.change fun
      | .map label es => .ok (.map label (Entries.put es (.str p.key) value), none)
      | _ => .error .malformed
  else return { r with pending := some (.start p.key text) }

def begun (r : Reading) (line : List Char) : Except Defect Reading :=
  match line with
  | [] => .ok r
  | c :: _ =>
    if c = '[' then do
      let header ← Header.of line
      let way ← follow header.isArray header.names r.implicit r.root
      return ⟨way.value, way.steps, way.implicit, none⟩
    else if c = '\x7b' then
      if line.getLast? = some '\x7d' then
        r.change fun table => do return (← assignInline readValue line table, none)
      else .error .malformed
    else if line.contains '=' then r.change (assign readValue line)
    else .ok r

def readLine (r : Reading) (line : List Char) : Except Defect Reading :=
  match r.pending with
  | some p => r.continued p line
  | none => r.begun (Text.trim line)

end Reading

/-- The table that a text describes. A text of several lines that is open at the end is left
out. -/
def read (text : List Char) : Except Defect Value := do
  let lines := Text.splitOn ['\n'] (← layout text)
  return (← lines.foldlM Reading.readLine .start).root

end ApiBindings.Toml
