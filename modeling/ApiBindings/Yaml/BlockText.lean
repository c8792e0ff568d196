import ApiBindings.Yaml.Glyph

/-!
Block scalars: indented lines after a header. Literal ones keep their breaks, folded ones turn a
break between two unindented lines into a space.
-/

namespace ApiBindings.Yaml

inductive Chomping where
  | strip
  | clip
  | keep
deriving DecidableEq

structure BlockHeader where
  chomping : Chomping
  increment : Option Nat

def chomping? (c : Char) : Option Chomping :=
  if c = '+' then some .keep
  else if c = '-' then some .strip
  else none

def increment? (c : Char) : Option Nat :=
  if Text.isDecimalDigit c then some (c.toNat - 48) else none

def takeIf {α : Type} (meaning : Char → Option α) : (s : List Glyph) → Lexed (Option α) s
  | [] => .stay none []
  | g :: rest =>
    match meaning g.char with
    | some a => (Lexed.stay (some a) rest).behind g
    | none => .stay none (g :: rest)

def readIndicators (s : List Glyph) : Lexed BlockHeader s :=
  let before := takeIf chomping? s
  let increment := takeIf increment? before.rest
  let behind : Lexed (Option Chomping) increment.rest :=
    if before.value.isNone && increment.value.isSome then takeIf chomping? increment.rest
    else .stay none increment.rest
  let chomping := (before.value.or behind.value).getD .clip
  before.after (increment.after (behind.map fun _ => ⟨chomping, increment.value⟩))

/-- The header up to the end of its line. An increment of zero is refused. -/
def readHeader (s : List Glyph) : Except Defect (Lexed BlockHeader s) := do
  let header := readIndicators s
  if header.value.increment != some 0 && isSpaceOrEnd (peek header.rest) then
    let line ← finishLine header.rest
    return header.after (line.map fun _ => header.value)
  else .error .malformed

/-- The empty lines before a block whose indentation is not given, and the widest indentation up
to its first line. -/
def leadingLines : (s : List Glyph) → Lexed (List Char × Nat) s
  | [] => .stay ([], 0) []
  | g :: rest =>
    if g.char == ' ' then
      ((leadingLines rest).map fun (breaks, width) => (breaks, max (g.column + 1) width)).behind g
    else if isBreak g.char then
      ((leadingLines rest).map fun (breaks, width) => (g.char :: breaks, width)).behind g
    else .stay ([], 0) (g :: rest)

def emptyLines (indent : Nat) : (s : List Glyph) → Lexed (List Char) s
  | [] => .stay [] []
  | g :: rest =>
    if g.char == ' ' && g.column < indent then (emptyLines indent rest).behind g
    else if isBreak g.char then ((emptyLines indent rest).map (g.char :: ·)).behind g
    else .stay [] (g :: rest)

structure BlockLines where
  text : List Char
  final : List Char
  trailing : List Char

def blockJoint (folded : Bool) (first next break_ : Char) (empty : List Char) : List Char :=
  if folded && break_ == '\n' && !isBlank first && !isBlank next then
    if empty.isEmpty then [' '] else []
  else [break_]

def blockLines (folded : Bool) (indent : Nat) (s : List Glyph) : Lexed BlockLines s :=
  let line := takeRun (fun c => !isBreak c) s
  match h : line.rest with
  | [] => ⟨⟨line.value, [], []⟩, [], Nat.zero_le _⟩
  | g :: rest =>
    let empty := emptyLines indent rest
    have shorter : empty.rest.length < s.length :=
      Nat.lt_of_le_of_lt empty.le (line.length_lt_of_rest_eq_cons h)
    if isAt indent empty.rest then
      let more := blockLines folded indent empty.rest
      let joint := blockJoint folded (peek s) (peek empty.rest) g.char empty.value
      ⟨{ more.value with text := line.value ++ joint ++ empty.value ++ more.value.text }, more.rest,
        Nat.le_of_lt (Nat.lt_of_le_of_lt more.le shorter)⟩
    else ⟨⟨line.value, [g.char], empty.value⟩, empty.rest, Nat.le_of_lt shorter⟩
termination_by s.length

/-- The text of a block after its indicator. Its lines are indented by more than `parent`. -/
def readBlock (folded : Bool) (parent : Int) (s : List Glyph) :
    Except Defect (Lexed (List Char) s) := do
  let header ← readHeader s
  let least := (max (parent + 1) 1).toNat
  let start : Lexed (List Char × Nat) header.rest := match header.value.increment with
    | none => (leadingLines header.rest).map fun (breaks, width) => (breaks, max least width)
    | some n =>
      let indent := least + n - 1
      (emptyLines indent header.rest).map fun breaks => (breaks, indent)
  let (breaks, indent) := start.value
  let lines : Lexed BlockLines start.rest :=
    if isAt indent start.rest then
      (blockLines folded indent start.rest).map fun l => { l with text := breaks ++ l.text }
    else .stay ⟨[], [], breaks⟩ start.rest
  return header.after (start.after (lines.map fun l => match header.value.chomping with
    | .strip => l.text
    | .clip => l.text ++ l.final
    | .keep => l.text ++ l.final ++ l.trailing))

end ApiBindings.Yaml
