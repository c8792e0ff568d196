import ApiBindings.Yaml.Token.Lexing
import ApiBindings.Yaml.BlockText
import ApiBindings.Yaml.Property
import ApiBindings.Yaml.QuotedText

/-!
Splitting a YAML text into tokens.
-/

namespace ApiBindings.Yaml.Lexing

/-- A mark or a directive at the beginning of a line closes all blocks. -/
def atLineStart (st : Lexing) : Except Defect Lexing := do
  return (← (st.unwind (-1)).dropCandidate).allowKey false

def openFlow (st : Lexing) (g : Glyph) (t : Token) : Except Defect Lexing := do
  let st ← st.addCandidate g
  return { st with
    outerCandidates := st.candidate :: st.outerCandidates
    candidate := none
    allowsKey := true }.emit t

def closeFlow (st : Lexing) (t : Token) : Except Defect Lexing := do
  let st ← st.dropCandidate
  match st.outerCandidates with
  | [] => .error .malformed
  | candidate :: outer =>
    return { st with candidate := candidate, outerCandidates := outer, allowsKey := false }.emit t

def nextEntry (st : Lexing) : Except Defect Lexing := do
  return ((← st.dropCandidate).allowKey true).emit .flowEntry

def openBlock (st : Lexing) (g : Glyph) (t : Token) : Except Defect Lexing :=
  if st.inFlow then .ok st
  else if st.allowsKey then
    match st.indentTo g.column with
    | some st => .ok (st.emit t)
    | none => .ok st
  else .error .malformed

def blockEntry (st : Lexing) (g : Glyph) : Except Defect Lexing := do
  let st ← st.openBlock g .blockSequenceStart
  return ((← st.dropCandidate).allowKey true).emit .blockEntry

def explicitKey (st : Lexing) (g : Glyph) : Except Defect Lexing := do
  let st ← st.openBlock g .blockMappingStart
  return ((← st.dropCandidate).allowKey !st.inFlow).emit .key

/-- The colon before a value. It makes a key of the candidate, if there is one. -/
def keyValue (st : Lexing) (g : Glyph) : Except Defect Lexing := do
  match st.candidate with
  | some c =>
    let st := { st with candidate := none }.insert c.number .key
    let st := if st.inFlow then st
      else match st.indentTo c.start.column with
        | some st => st.insert c.number .blockMappingStart
        | none => st
    return (st.allowKey false).emit .value
  | none =>
    let st ← st.openBlock g .blockMappingStart
    return (st.allowKey !st.inFlow).emit .value

def content (st : Lexing) (g : Glyph) (t : Token) : Except Defect Lexing := do
  return ((← st.addCandidate g).allowKey false).emit t

def beginsPlain (inFlow : Bool) (c next : Char) : Bool :=
  !(isGap c || isFlowEnd c || c == '-' || c == ':' || c == '#' || c == '&' || c == '*' || c == '!'
      || c == '|' || c == '>' || c == '\'' || c == '"' || c == '%' || c == '@' || c.toNat == 0x60)
    || (!isGap next && (c == '-' || (!inFlow && (c == '?' || c == ':'))))

def proceed {α : Type} {rest : List Glyph} (x : Lexed α rest) (f : α → Except Defect Lexing) :
    Except Defect (Lexed Lexing rest) := do
  let st ← f x.value
  return x.map fun _ => st

def readContent (st : Lexing) (g : Glyph) (rest : List Glyph) :
    Except Defect (Lexed Lexing rest) := do
  let c := g.char
  if c == '*' then proceed (← readAnchor rest) fun name => st.content g (.alias_ name)
  else if c == '&' then proceed (← readAnchor rest) fun name => st.content g (.anchor name)
  else if c == '!' then
    proceed (← readTag g rest) fun (handle, suffix) => st.content g (.tag handle suffix)
  else if (c == '|' || c == '>') && !st.inFlow then
    let st ← (st.allowKey true).dropCandidate
    proceed (← readBlock (c == '>') st.indent rest) fun text =>
      .ok (st.emit (.scalar false (String.ofList text)))
  else if c == '\'' || c == '"' then
    let quote : Quote := if c == '"' then .double else .single
    proceed (← readQuoted quote rest) fun text => st.content g (.scalar false (String.ofList text))
  else if beginsPlain st.inFlow c (peek rest) then
    let st ← st.addCandidate g
    proceed (plainRest st.inFlow (st.indent + 1) rest) fun (text, broken) =>
      .ok ((st.allowKey broken).emit (.scalar true (String.ofList (c :: text))))
  else .error .malformed

def readToken (st : Lexing) (g : Glyph) (rest : List Glyph) :
    Except Defect (Lexed Lexing rest) := do
  let c := g.char
  let indicator (f : Except Defect Lexing) : Except Defect (Lexed Lexing rest) :=
    do return .stay (← f) rest
  if c == '%' && g.column == 0 then
    let st ← st.atLineStart
    proceed (← readDirective rest) fun d => .ok (st.emit (.directive d))
  else if g.column == 0 && isSeparator (g :: rest) then
    let st ← st.atLineStart
    let t := if c == '-' then Token.documentStart else .documentEnd
    return ⟨st.emit t, rest.drop 2, by simp⟩
  else if c == '[' then indicator (st.openFlow g .flowSequenceStart)
  else if c == '\x7b' then indicator (st.openFlow g .flowMappingStart)
  else if c == ']' then indicator (st.closeFlow .flowSequenceEnd)
  else if c == '\x7d' then indicator (st.closeFlow .flowMappingEnd)
  else if c == ',' then indicator st.nextEntry
  else if c == '-' && isGap (peek rest) then indicator (st.blockEntry g)
  else if c == '?' && (st.inFlow || isGap (peek rest)) then indicator (st.explicitKey g)
  else if c == ':' && (st.inFlow || isGap (peek rest)) then indicator (st.keyValue g)
  else readContent st g rest

def tokens (st : Lexing) (s : List Glyph) : List Token :=
  let filler := skipFiller false false s
  let st := if filler.value && !st.inFlow then st.allowKey true else st
  match h : filler.rest with
  | [] => st.finish
  | g :: rest =>
    match st.arrive g with
    | .error p => st.stopAt p
    | .ok st =>
      match readToken st g rest with
      | .error p => st.stopAt p
      | .ok next =>
        have : next.rest.length < s.length := by
          have := filler.le; have := next.le
          simp only [h, List.length_cons] at *; omega
        tokens next.value next.rest
termination_by s.length

end ApiBindings.Yaml.Lexing

namespace ApiBindings.Yaml

/-- The tokens of a text. A text with a character that none may hold has a fault alone. -/
def tokensOf (text : List Char) : List Token :=
  if text.all isPermitted then Lexing.tokens .start (glyphsOf text) else [.fault .malformed]

end ApiBindings.Yaml
