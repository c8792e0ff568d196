import ApiBindings.Text.WordChar
import ApiBindings.Text.Digit
import ApiBindings.Text.Uppercase
import ApiBindings.Document.Access

/-!
Type names in PascalCase. The letters and digits of a text are cut into chunks at all other
characters, an ASCII chunk into words where the case or the kind of character changes, and each
piece begins with a capital. A run of capitals before a capitalised word is a word of its own,
so `HTTPError` is made of `HTTP` and `Error`.
-/

namespace ApiBindings.Naming

/-- Whether a character continues in front of a word: a digit before digits, a small letter
before small letters, a capital before a small letter or before capitals alone. -/
def joins (c : Char) (word : List Char) : Bool :=
  match word with
  | [] => false
  | [d] =>
    if c.isDigit then d.isDigit
    else if c.isLower then d.isLower
    else d.isAlpha
  | d :: e :: _ =>
    if c.isDigit then d.isDigit
    else if c.isLower then d.isLower
    else d.isLower || (d.isUpper && e.isUpper)

def words : List Char → List (List Char)
  | [] => []
  | c :: cs =>
    match words cs with
    | [] => [[c]]
    | word :: rest => if joins c word then (c :: word) :: rest else [c] :: word :: rest

def capitalize : List Char → List Char
  | [] => []
  | c :: cs => Text.upperChar c ++ cs

/-- An ASCII chunk is cut into words, any other chunk stays whole. -/
def chunkPieces (chunk : List Char) : List (List Char) :=
  if chunk.all (·.toNat < 0x80) then words chunk else [chunk]

def pascalChars (s : List Char) : List Char :=
  ((Text.runs Text.isLetterOrDigit s).flatMap chunkPieces).flatMap capitalize

def guardDigit : List Char → List Char
  | [] => []
  | c :: cs => if Text.isDigit c then '_' :: c :: cs else c :: cs

/-- The type name of a text; the empty text is its own name, and any other needs a letter or a
digit. -/
def pascalCase (name : String) : Except Fault String :=
  if name = "" then .ok ""
  else match pascalChars name.toList with
    | [] => .error (.because (.unnameable name))
    | cs => .ok (String.ofList (guardDigit cs))

def pascalCaseOf (v : Value) : Except Fault String :=
  if v.isFilled then
    match v with
    | .scalar (.str s) => pascalCase s
    | _ => .error (.misuse .wrongKind)
  else .ok ""

end ApiBindings.Naming
