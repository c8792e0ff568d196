import ApiBindings.Fault

/-!
Characters of a YAML text with their places. Every line break is one glyph: a carriage return,
with the line feed that may follow it, and a next line character count as a line feed. The end
of the text reads as NUL, which no text may hold.
-/

namespace ApiBindings.Yaml

structure Glyph where
  char : Char
  index : Nat
  line : Nat
  column : Nat

def isPermitted (c : Char) : Bool :=
  c == '\t' || c == '\n' || c == '\r' || c == '\x85'
    || Text.inRanges (Text.codePoint c)
      [(0x20, 0x7e), (0xa0, 0xd7ff), (0xe000, 0xfffd), (0x10000, 0x10ffff)]

def endOfText : Char := '\x00'

def isBreak (c : Char) : Bool := c == '\n' || c == '\u2028' || c == '\u2029'

def isBlank (c : Char) : Bool := c == ' ' || c == '\t'

def isBreakOrEnd (c : Char) : Bool := isBreak c || c == endOfText

def isGap (c : Char) : Bool := isBlank c || isBreakOrEnd c

def isSpaceOrEnd (c : Char) : Bool := c == ' ' || isBreakOrEnd c

def isNameChar (c : Char) : Bool := (c.toNat < 0x80 && c.isAlphanum) || c == '-' || c == '_'

/-- The characters with their places, counted from zero. A byte order mark takes no column. -/
def glyphs (index line column : Nat) : List Char → List Glyph
  | [] => []
  | '\r' :: '\n' :: rest => ⟨'\n', index, line, column⟩ :: glyphs (index + 2) (line + 1) 0 rest
  | c :: rest =>
    if c = '\r' ∨ c = '\x85' then
      ⟨'\n', index, line, column⟩ :: glyphs (index + 1) (line + 1) 0 rest
    else if isBreak c then ⟨c, index, line, column⟩ :: glyphs (index + 1) (line + 1) 0 rest
    else ⟨c, index, line, column⟩
      :: glyphs (index + 1) line (if c = '\ufeff' then column else column + 1) rest

def glyphsOf : List Char → List Glyph
  | '\ufeff' :: rest => glyphs 1 0 0 rest
  | text => glyphs 0 0 0 text

def peek : List Glyph → Char
  | [] => endOfText
  | g :: _ => g.char

def isAt (column : Nat) : List Glyph → Bool
  | [] => false
  | g :: _ => g.column == column

/-- Whether a mark of three equal characters stands here, with a gap after it. -/
def isMark (c : Char) : List Glyph → Bool
  | x :: y :: z :: rest => x.char == c && y.char == c && z.char == c && isGap (peek rest)
  | _ => false

def isSeparator (s : List Glyph) : Bool := isMark '-' s || isMark '.' s

/-- What is read from the front of `s`, and the rest, which is no longer than `s`. -/
structure Lexed (α : Type) (s : List Glyph) where
  value : α
  rest : List Glyph
  le : rest.length ≤ s.length

namespace Lexed

def stay {α : Type} (value : α) (s : List Glyph) : Lexed α s := ⟨value, s, Nat.le_refl _⟩

def map {α β : Type} {s : List Glyph} (f : α → β) (x : Lexed α s) : Lexed β s :=
  ⟨f x.value, x.rest, x.le⟩

def behind {α : Type} {s : List Glyph} (g : Glyph) (x : Lexed α s) : Lexed α (g :: s) :=
  ⟨x.value, x.rest, Nat.le_succ_of_le x.le⟩

def after {α β : Type} {s : List Glyph} (x : Lexed β s) (y : Lexed α x.rest) : Lexed α s :=
  ⟨y.value, y.rest, Nat.le_trans y.le x.le⟩

theorem length_lt_of_rest_eq_cons {α : Type} {s more : List Glyph} {g : Glyph} (x : Lexed α s)
    (h : x.rest = g :: more) : more.length < s.length := by
  have := x.le
  rw [h] at this
  exact this

end Lexed

def takeRun (keep : Char → Bool) : (s : List Glyph) → Lexed (List Char) s
  | [] => .stay [] []
  | g :: rest =>
    if keep g.char then ((takeRun keep rest).map (g.char :: ·)).behind g
    else .stay [] (g :: rest)

def skipFiller (inComment broken : Bool) : (s : List Glyph) → Lexed Bool s
  | [] => .stay broken []
  | g :: rest =>
    if isBreak g.char then (skipFiller false true rest).behind g
    else if inComment || g.char == '#' then (skipFiller true broken rest).behind g
    else if g.char == ' ' then (skipFiller false broken rest).behind g
    else .stay broken (g :: rest)

def finishLine (s : List Glyph) : Except Defect (Lexed Unit s) :=
  let spaces := takeRun (· == ' ') s
  let comment := if peek spaces.rest == '#' then takeRun (fun c => !isBreak c) spaces.rest
    else .stay [] spaces.rest
  match h : comment.rest with
  | [] => .ok ⟨(), [], Nat.zero_le _⟩
  | g :: rest =>
    if isBreak g.char then
      .ok ⟨(), rest, Nat.le_trans (Nat.le_of_lt (comment.length_lt_of_rest_eq_cons h)) spaces.le⟩
    else .error .malformed

end ApiBindings.Yaml
