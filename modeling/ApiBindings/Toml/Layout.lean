import ApiBindings.Text.Space
import ApiBindings.Text.WordChar
import ApiBindings.Toml.Quoted

/-!
The first reading of a configuration text. It blanks comments, puts arrays on one line, drops the
break that opens a text of several lines, and refuses malformed keys and open quotes.
-/

namespace ApiBindings.Toml

inductive KeyPart where
  | none
  | within
  | behind
deriving DecidableEq

structure Layout where
  /-- The text read so far, backwards. -/
  done : List Char
  key : KeyPart
  isDotted : Bool
  quote : Option Char
  isOpen : Bool
  isLong : Bool
  inTable : Bool
  inTableArray : Bool
  arrays : Int
  atLineStart : Bool

namespace Layout

def start : Layout := ⟨[], .none, false, none, false, false, false, false, 0, true⟩

def push (st : Layout) (c : Char) : Layout := { st with done := c :: st.done }

def isKeyChar (c : Char) : Bool := Text.isLetterOrDigit c || c == '_' || c == '-'

def keyPartBefore (next : List Char) : Except Defect KeyPart :=
  match next with
  | [] => .error (.misuse .missingItem)
  | c :: _ => .ok (if !Text.isSpace c && c != '.' then .within else .behind)

/-- Reads a character of a key, or the sign behind one; none if the key ends before it. -/
def readKey (st : Layout) (c : Char) (next : List Char) : Except Defect (Option Layout) :=
  if c == '\n' then .error .malformed
  else if st.isOpen then
    if st.quote == some c && !Text.endsEscaped st.done then
      .ok (some { st with key := .behind, isOpen := false, quote := none })
    else .ok (some st)
  else
    match st.key with
    | .within =>
      if Text.isSpace c then .ok (some { st with key := .behind })
      else if c == '.' then .ok (some { st with isDotted := true })
      else if isKeyChar c then .ok (some st)
      else if st.isDotted && st.done.head? == some '.' && isQuote c then
        .ok (some { st with isOpen := true, quote := some c })
      else .ok none
    | _ =>
      if Text.isSpace c then
        if st.isDotted then do
          let part ← keyPartBefore next
          return some { st with key := part }
        else .ok (some st)
      else if c == '.' then do
        let part ← keyPartBefore next
        return some { st with isDotted := true, key := part }
      else .ok none

/-- How many of the last two characters are the quote `c`. -/
def quotesBefore (c : Char) (done : List Char) : Nat := ((done.take 2).takeWhile (· == c)).length

/-- Opens or closes a text at a quote. Three quotes open and close one of several lines. -/
def toggle (st : Layout) (c : Char) (isTriple : Bool) : Layout :=
  let isLong := if isTriple then !st.isLong else st.isLong
  let isOpen := if isTriple then isLong else !st.isOpen
  { st with isLong := isLong, isOpen := isOpen, quote := if isOpen then some c else none }

def readQuote (st : Layout) (c : Char) : Layout :=
  if c == '\'' && st.quote != some '"' then st.toggle c (quotesBefore c st.done == 2)
  else if c == '"' && st.quote != some '\'' then
    let before := quotesBefore c st.done
    let isEscaped := before != 1 && Text.endsEscaped (st.done.drop before)
    if isEscaped then { st with quote := if st.isOpen then some c else none }
    else st.toggle c (before == 2)
  else st

def readBracket (st : Layout) (c : Char) (next : List Char) : Layout :=
  if st.isOpen then st
  else if c == '[' && !st.inTable && !st.inTableArray then
    if st.atLineStart then
      if next.head? == some '[' then { st with inTableArray := true }
      else { st with inTable := true }
    else { st with arrays := st.arrays + 1 }
  else if c == ']' then
    if st.inTable then { st with inTable := false }
    else if st.inTableArray then
      if st.done.head? == some ']' then { st with inTableArray := false } else st
    else { st with arrays := st.arrays - 1 }
  else st

/-- The break after the three quotes that open a text is taken out; its place is filled by moving
the quotes. -/
def closeGap (st : Layout) : Layout :=
  match st.done with
  | a :: b :: rest =>
    if isQuote a && a == b then
      match rest with
      | c :: more => { st with done := a :: a :: b :: (if c == a then ' ' else c) :: more }
      | [] => { st with done := [a, a, b] }
    else st.push '\n'
  | _ => st.push '\n'

def readBreak (st : Layout) : Except Defect Layout :=
  if st.isOpen || st.isLong then
    if st.isLong then .ok st.closeGap else .error .malformed
  else if st.arrays != 0 then .ok (st.push ' ')
  else .ok (({ st with atLineStart := true } : Layout).push '\n')

def readPlain (st : Layout) (c : Char) (next : List Char) : Except Defect Layout :=
  let st := (st.readQuote c).readBracket c next
  if c == '\n' then st.readBreak
  else if st.atLineStart && c != ' ' && c != '\t' then
    let st := { st with atLineStart := false }
    if st.inTable || st.inTableArray then .ok (st.push c)
    else if c == '=' then .error .malformed
    else .ok (({ st with key := .within } : Layout).push c)
  else .ok (st.push c)

def startsComment (st : Layout) (c : Char) : Bool :=
  c == '#' && !st.isOpen && !st.inTable && !st.inTableArray

def readChar (st : Layout) (c : Char) (next : List Char) : Except Defect Layout := do
  if st.key = .none then st.readPlain c next
  else
    match ← st.readKey c next with
    | some st => return st.push c
    | none =>
      if c == '=' then ({ st with key := .none, isDotted := false } : Layout).readPlain c next
      else .error .malformed

def run (st : Layout) (inComment : Bool) : List Char → Except Defect Layout
  | [] => .ok st
  | c :: rest =>
    if inComment && c != '\n' then run (st.push ' ') true rest
    else if st.key = .none && st.startsComment c then run (st.push ' ') true rest
    else do run (← st.readChar c rest) false rest

end Layout

def layout (text : List Char) : Except Defect (List Char) := do
  let st ← Layout.start.run false text
  if st.key ≠ .none ∨ st.isOpen then .error .malformed
  else return st.done.reverse

end ApiBindings.Toml
