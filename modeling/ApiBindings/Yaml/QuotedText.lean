import ApiBindings.Yaml.PlainText

/-!
Quoted scalars. Single quotes are doubled inside; double quotes know escapes. Line breaks are
folded, and blanks around them are dropped.
-/

namespace ApiBindings.Yaml

inductive Quote where
  | single
  | double
deriving DecidableEq

def Quote.char : Quote → Char
  | .single => '\''
  | .double => '"'

def quotedBreaks (fresh : Bool) : (s : List Glyph) → Except Defect (Lexed (List Char) s)
  | [] => .ok (.stay [] [])
  | g :: rest =>
    if fresh && isSeparator (g :: rest) then .error .malformed
    else if isBlank g.char then do return (← quotedBreaks false rest).behind g
    else if isBreak g.char then do
      return ((← quotedBreaks true rest).map (g.char :: ·)).behind g
    else .ok (.stay [] (g :: rest))

def escapes : List (Char × Char) := [
  ('0', '\x00'), ('a', '\x07'), ('b', '\x08'), ('t', '\t'), ('\t', '\t'), ('n', '\n'),
  ('v', '\x0b'), ('f', '\x0c'), ('r', '\r'), ('e', '\x1b'), (' ', ' '), ('"', '"'), ('\\', '\\'),
  ('/', '/'), ('N', '\x85'), ('_', '\xa0'), ('L', '\u2028'), ('P', '\u2029')]

def escapeWidth? (c : Char) : Option Nat :=
  if c = 'x' then some 2
  else if c = 'u' then some 4
  else if c = 'U' then some 8
  else none

def hexNumber? (read : Nat) : (width : Nat) → (s : List Glyph) → Option (Lexed Nat s)
  | 0, s => some (.stay read s)
  | _ + 1, [] => none
  | width + 1, g :: rest => do
    let digit ← Text.hexValue? g.char
    return (← hexNumber? (read * 16 + digit) width rest).behind g

def charOfCode (code : Nat) : Except Defect Char :=
  if code ≤ 0x10ffff then .ok (Text.ofCodePoint code)
  else if code < 2147483648 then .error (.misuse .invalidValue)
  else .error (.misuse .tooLarge)

/-- What an escape stands for, after its backslash. An escaped line break stands for the empty
lines after it. -/
def readEscape : (s : List Glyph) → Except Defect (Lexed (List Char) s)
  | [] => .error .malformed
  | g :: rest =>
    match escapes.lookup g.char with
    | some c => .ok ((Lexed.stay [c] rest).behind g)
    | none =>
      match escapeWidth? g.char with
      | some width =>
        match hexNumber? 0 width rest with
        | some code => do
          let c ← charOfCode code.value
          return (code.map fun _ => [c]).behind g
        | none => .error .malformed
      | none =>
        if isBreak g.char then do return (← quotedBreaks true rest).behind g
        else .error .malformed

def quotedFold (first : Char) (s : List Glyph) : Except Defect (Lexed (List Char) s) := do
  return (← quotedBreaks true s).map (foldBreaks first)

/-- Blanks within quotes: kept on a line, dropped around a break. -/
def quotedGap (blanks : List Char) : (s : List Glyph) → Except Defect (Lexed (List Char) s)
  | [] => .error .malformed
  | g :: rest =>
    if isBlank g.char then do return (← quotedGap (blanks ++ [g.char]) rest).behind g
    else if isBreak g.char then do return (← quotedFold g.char rest).behind g
    else .ok (.stay blanks (g :: rest))

def readPart (quote : Quote) (g : Glyph) (rest : List Glyph) :
    Except Defect (Lexed (List Char) rest) :=
  if quote = .double ∧ g.char = '\\' then readEscape rest
  else if isBlank g.char then quotedGap [g.char] rest
  else if isBreak g.char then quotedFold g.char rest
  else .ok (.stay [g.char] rest)

def readQuoted (quote : Quote) (s : List Glyph) : Except Defect (Lexed (List Char) s) :=
  match s with
  | [] => .error .malformed
  | g :: rest =>
    if g.char = quote.char then
      match quote, rest with
      | .single, h :: more =>
        if h.char = '\'' then do
          return (((← readQuoted .single more).map ('\'' :: ·)).behind h).behind g
        else .ok ((Lexed.stay [] (h :: more)).behind g)
      | _, rest => .ok ((Lexed.stay [] rest).behind g)
    else do
      let part ← readPart quote g rest
      let more ← readQuoted quote part.rest
      return ((part.after more).map (part.value ++ ·)).behind g
termination_by s.length
decreasing_by
  · simp only [List.length_cons]; omega
  · have := part.le; simp only [List.length_cons]; omega

end ApiBindings.Yaml
