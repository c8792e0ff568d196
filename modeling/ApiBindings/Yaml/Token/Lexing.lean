import ApiBindings.Yaml.Token

/-!
The state between two tokens. A token that may turn out to be a key is remembered until a colon
follows it on its line, within 1024 characters; the colon then puts the start of a key before it.
-/

namespace ApiBindings.Yaml

/-- A token that may be a key. It is required if nothing else can stand at its place. -/
structure KeyCandidate where
  number : Nat
  required : Bool
  start : Glyph

structure Lexing where
  indent : Int
  outerIndents : List Int
  candidate : Option KeyCandidate
  outerCandidates : List (Option KeyCandidate)
  allowsKey : Bool
  reversed : List Token
  count : Nat

namespace Lexing

def start : Lexing := ⟨-1, [], none, [], true, [], 0⟩

def inFlow (st : Lexing) : Bool := !st.outerCandidates.isEmpty

def emit (st : Lexing) (t : Token) : Lexing :=
  { st with reversed := t :: st.reversed, count := st.count + 1 }

def allowKey (st : Lexing) (allowed : Bool) : Lexing := { st with allowsKey := allowed }

def insert (st : Lexing) (number : Nat) (t : Token) : Lexing :=
  let behind := st.count - number
  { st with
    reversed := st.reversed.take behind ++ t :: st.reversed.drop behind
    count := st.count + 1 }

def deeper (column : Int) (indent : Int) : List Int → Nat × Int × List Int
  | [] => (0, indent, [])
  | outer :: rest =>
    if indent > column then
      let (n, found) := deeper column outer rest
      (n + 1, found)
    else (0, indent, outer :: rest)

/-- Closes the block collections that lie deeper than a column; none is closed in brackets. -/
def unwind (st : Lexing) (column : Int) : Lexing :=
  if st.inFlow then st
  else
    let (n, indent, outer) := deeper column st.indent st.outerIndents
    { st with
      indent := indent
      outerIndents := outer
      reversed := List.replicate n .blockEnd ++ st.reversed
      count := st.count + n }

/-- Opens a block collection at a column, unless one is open there. -/
def indentTo (st : Lexing) (column : Int) : Option Lexing :=
  if st.indent < column then
    some { st with indent := column, outerIndents := st.indent :: st.outerIndents }
  else none

def giveUp (candidate : Option KeyCandidate) : Except Defect Unit :=
  match candidate with
  | some c => if c.required then .error .malformed else .ok ()
  | none => .ok ()

def dropCandidate (st : Lexing) : Except Defect Lexing := do
  giveUp st.candidate
  return { st with candidate := none }

def addCandidate (st : Lexing) (g : Glyph) : Except Defect Lexing := do
  if st.allowsKey then
    giveUp st.candidate
    let required := !st.inFlow && st.indent == g.column
    return { st with candidate := some ⟨st.count, required, g⟩ }
  else return st

def stillCandidate (g : Glyph) (candidate : Option KeyCandidate) :
    Except Defect (Option KeyCandidate) :=
  match candidate with
  | none => .ok none
  | some c =>
    if c.start.line = g.line ∧ g.index ≤ c.start.index + 1024 then .ok (some c)
    else do
      giveUp (some c)
      return none

def arrive (st : Lexing) (g : Glyph) : Except Defect Lexing := do
  let candidate ← stillCandidate g st.candidate
  let outer ← st.outerCandidates.mapM (stillCandidate g)
  return unwind { st with candidate := candidate, outerCandidates := outer } g.column

def firstWaiting (st : Lexing) : Nat :=
  ((st.candidate :: st.outerCandidates).filterMap (·.map (·.number))).foldl min st.count

/-- The tokens that can be used before a fault, and the fault. -/
def stopAt (st : Lexing) (p : Defect) : List Token :=
  st.reversed.reverse.take st.firstWaiting ++ [.fault p]

def finish (st : Lexing) : List Token :=
  match (st.candidate :: st.outerCandidates).forM giveUp with
  | .ok () => (st.unwind (-1)).reversed.reverse
  | .error p => st.stopAt p

end Lexing

end ApiBindings.Yaml
