import ApiBindings.Fault
import ApiBindings.Text.Split
import ApiBindings.Text.Surrogate

/-!
Quoted texts of configurations. Double quotes allow escapes, single ones do not; three quotes
stand around a text of several lines.
-/

namespace ApiBindings.Toml

def isQuote (c : Char) : Bool := c == '"' || c == '\''

def escapes : List (Char × Char) := [
  ('0', '\x00'), ('b', '\x08'), ('f', '\x0c'), ('n', '\n'), ('r', '\r'), ('t', '\t'), ('"', '"')]

/-- The text with its escapes resolved; code points in hexadecimal are left as they are. -/
def unescape : List Char → Except Defect (List Char)
  | [] => .ok []
  | ['\\'] => .ok ['\\']
  | '\\' :: c :: rest =>
    match escapes.lookup c with
    | some x => (x :: ·) <$> unescape rest
    | none =>
      if c = '\\' then ('\\' :: ·) <$> unescape rest
      else if c = 'u' ∨ c = 'U' then ('\\' :: c :: ·) <$> unescape rest
      else .error .malformed
  | c :: rest => (c :: ·) <$> unescape rest

/-- Whether an unknown escape is met in the pieces between backslashes. Two backslashes in a row,
which leave an empty piece, are one that is meant. -/
def hasUnknownEscape (isMeant : Bool) : List (List Char) → Bool
  | [] => false
  | [] :: rest => hasUnknownEscape (!isMeant) rest
  | (c :: _) :: rest =>
    ((escapes.lookup c).isNone && c != 'u' && c != 'U' && !isMeant) || hasUnknownEscape false rest

def greatestCode : Nat := 2147483647

def readCode (digits : List Char) : Except Defect Char := do
  if digits.any fun c => (Text.hexValue? c).isNone then .error .malformed
  match digits with
  | [] => .error (.misuse .missingItem)
  | first :: rest =>
    if first.toLower = 'd' then
      match rest with
      | [] => .error (.misuse .missingItem)
      | second :: _ => if second < '0' ∨ '7' < second then .error .malformed
    let code := digits.foldl (fun n c => n * 16 + (Text.hexValue? c).getD 0) 0
    if code < 0x110000 then .ok (Text.ofCodePoint code)
    else .error (if code ≤ greatestCode then .malformed else .misuse .tooLarge)

/-- The pieces behind the mark of a code point with their code points resolved. A mark behind an
escaped backslash is none. -/
def resolveCodes (mark : List Char) (width : Nat) (isEscaped : Bool) :
    List (List Char) → Except Defect (List Char)
  | [] => .ok []
  | piece :: rest =>
    if isEscaped then do
      return mark ++ piece ++ (← resolveCodes mark width (Text.endsEscaped piece.reverse) rest)
    else do
      let c ← readCode (piece.take width)
      return c :: piece.drop width ++ (← resolveCodes mark width false rest)

def withCodes (mark : Char) (width : Nat) (s : List Char) : Except Defect (List Char) :=
  match Text.splitOn ['\\', mark] s with
  | [] => .ok s
  | head :: rest => do
    return head ++ (← resolveCodes ['\\', mark] width (Text.endsEscaped head.reverse) rest)

/-- Whether something follows the quote that closes a text, told from the pieces between the
quotes. Of three quotes that close a text, `quotes` have been met. -/
def hasMoreBehind (isTriple isClosed : Bool) (quotes : Nat) : List (List Char) → Bool
  | [] => false
  | piece :: rest =>
    if piece.isEmpty then hasMoreBehind isTriple (isClosed || !isTriple) (quotes + 1) rest
    else if Text.endsEscaped piece.reverse then hasMoreBehind isTriple isClosed quotes rest
    else if isClosed then true
    else if !isTriple || quotes > 1 then hasMoreBehind isTriple true quotes rest
    else hasMoreBehind isTriple false 0 rest

def isFollowed (quote : Char) (s : List Char) : Bool :=
  match Text.splitOn [quote] s with
  | [] :: [] :: rest => hasMoreBehind true false 0 rest
  | pieces => hasMoreBehind false false 0 pieces

def inner (s : List Char) : List Char := (s.drop 1).dropLast

def withoutQuotes (quote : Char) (s : List Char) : List Char :=
  match s with
  | _ :: b :: rest =>
    if b = quote ∧ (rest = [] ∨ rest.head? = some quote) then inner (inner (inner s)) else inner s
  | s => inner s

def resolve (s : List Char) : Except Defect (List Char) := do
  if hasUnknownEscape false ((Text.splitOn ['\\'] s).drop 1) then .error .malformed
  unescape (← withCodes 'U' 8 (← withCodes 'u' 4 s))

def readQuoted (quote : Char) (s : List Char) : Except Defect String := do
  if isFollowed quote (s.drop 1) then .error .malformed
  let resolved ← if quote = '"' then resolve s else pure s
  return String.ofList (withoutQuotes quote resolved)

end ApiBindings.Toml
