import ApiBindings.Yaml.Token

/-!
Names of anchors, tags and directives as they are written.
-/

namespace ApiBindings.Yaml

def endsAnchor (c : Char) : Bool :=
  isGap c || c == '?' || c == ':' || c == ',' || c == ']' || c == '\x7d' || c == '%' || c == '@'
    || c.toNat == 0x60

def readAnchor (s : List Glyph) : Except Defect (Lexed String s) :=
  let name := takeRun isNameChar s
  if !name.value.isEmpty && endsAnchor (peek name.rest) then .ok (name.map String.ofList)
  else .error .malformed

def isTagChar (c : Char) : Bool :=
  isNameChar c || c ∈ [';', '/', '?', ':', '@', '&', '=', '+', '$', ',', '.', '!', '~', '*', '\'',
    '(', ')', '[', ']']

def hexByte? (c d : Char) : Option UInt8 := do
  return UInt8.ofNat ((← Text.hexValue? c) * 16 + (← Text.hexValue? d))

def percentBytes (s : List Glyph) : Except Defect (Lexed (List UInt8) s) :=
  match s with
  | g :: a :: b :: rest =>
    if g.char = '%' then
      match hexByte? a.char b.char with
      | some byte => do
        return ((((← percentBytes rest).map (byte :: ·)).behind b).behind a).behind g
      | none => .error .malformed
    else .ok (.stay [] (g :: a :: b :: rest))
  | s => if peek s = '%' then .error .malformed else .ok (.stay [] s)

/-- The text of a tag, which may be empty. Escaped bytes are text in UTF-8. -/
def tagText (s : List Glyph) : Except Defect (Lexed (List Char) s) :=
  match s with
  | [] => .ok (.stay [] [])
  | g :: rest =>
    if g.char = '%' then
      match rest with
      | a :: b :: more =>
        match hexByte? a.char b.char with
        | none => .error .malformed
        | some byte => do
          let bytes ← percentBytes more
          match String.fromUTF8? ⟨(byte :: bytes.value).toArray⟩ with
          | none => .error .malformed
          | some text => do
            let tail ← tagText bytes.rest
            return ((((bytes.after tail).map (text.toList ++ ·)).behind b).behind a).behind g
      | _ => .error .malformed
    else if isTagChar g.char then do
      return ((← tagText rest).map (g.char :: ·)).behind g
    else .ok (.stay [] (g :: rest))
termination_by s.length
decreasing_by
  · have := bytes.le; simp only [List.length_cons]; omega
  · simp

def readTagText (s : List Glyph) : Except Defect (Lexed String s) := do
  if isTagChar (peek s) || peek s == '%' then return (← tagText s).map String.ofList
  else .error .malformed

/-- A handle: an exclamation mark, or a name between two. -/
def readHandle (s : List Glyph) : Except Defect (Lexed String s) :=
  match s with
  | [] => .error .malformed
  | g :: rest =>
    if g.char != '!' then .error .malformed
    else if peek rest == ' ' then .ok ((Lexed.stay "!" rest).behind g)
    else
      let name := takeRun isNameChar rest
      match h : name.rest with
      | [] => .error .malformed
      | g' :: more =>
        if g'.char == '!' then
          .ok ⟨"!" ++ String.ofList name.value ++ "!", more,
            Nat.le_succ_of_le (Nat.le_of_lt (name.length_lt_of_rest_eq_cons h))⟩
        else .error .malformed

def hasHandle : List Glyph → Bool
  | [] => false
  | g :: rest => if isSpaceOrEnd g.char then false else g.char == '!' || hasHandle rest

def readTagAfter (bang : Glyph) (s : List Glyph) :
    Except Defect (Lexed (Option String × String) s) :=
  match s with
  | [] => .ok (.stay (none, "!") [])
  | g :: rest =>
    if g.char == '<' then do
      let text ← readTagText rest
      match h : text.rest with
      | [] => .error .malformed
      | close :: more =>
        if close.char == '>' then
          return ⟨(none, text.value), more, by
            have := text.le
            simp only [h, List.length_cons] at *; omega⟩
        else .error .malformed
    else if isGap g.char then .ok (.stay (none, "!") (g :: rest))
    else if hasHandle (g :: rest) then do
      let name := takeRun isNameChar (g :: rest)
      match h : name.rest with
      | [] => .error .malformed
      | mark :: more =>
        if mark.char == '!' then
          let suffix ← readTagText more
          return ⟨(some ("!" ++ String.ofList name.value ++ "!"), suffix.value), suffix.rest, by
            have := name.le; have := suffix.le
            simp only [h, List.length_cons] at *; omega⟩
        else .error .malformed
    else do return (← readTagText (g :: rest)).map fun suffix => (some bang.char.toString, suffix)

def readTag (bang : Glyph) (s : List Glyph) : Except Defect (Lexed (Option String × String) s) := do
  let tag ← readTagAfter bang s
  if isSpaceOrEnd (peek tag.rest) then return tag else .error .malformed

/-- A number of decimal digits; the reader of integers takes at most 4300 of them. -/
def readDigits (s : List Glyph) : Except Defect (Lexed Nat s) :=
  let digits := takeRun Text.isDecimalDigit s
  if digits.value.isEmpty then .error .malformed
  else if digits.value.length > 4300 then .error (.misuse .invalidValue)
  else .ok (digits.map Text.natOfDigits)

/-- The version of a directive, of which only the major number counts. -/
def readVersion (s : List Glyph) : Except Defect (Lexed Directive s) := do
  let major ← readDigits s
  match h : major.rest with
  | [] => .error .malformed
  | g :: rest =>
    if g.char == '.' then
      let minor ← readDigits rest
      if isSpaceOrEnd (peek minor.rest) then
        return ⟨.version major.value, minor.rest, by
          have := major.le; have := minor.le
          simp only [h, List.length_cons] at *; omega⟩
      else .error .malformed
    else .error .malformed

def readTagHandle (s : List Glyph) : Except Defect (Lexed Directive s) := do
  let handle ← readHandle s
  if peek handle.rest == ' ' then
    let spaces := takeRun (· == ' ') handle.rest
    let root ← readTagText spaces.rest
    if isSpaceOrEnd (peek root.rest) then
      return handle.after (spaces.after (root.map fun text => .tagHandle handle.value text))
    else .error .malformed
  else .error .malformed

def readDirective (s : List Glyph) : Except Defect (Lexed Directive s) := do
  let name := takeRun isNameChar s
  if name.value.isEmpty || !isSpaceOrEnd (peek name.rest) then .error .malformed
  else
    let word := String.ofList name.value
    let body ←
      if word = "YAML" then
        let spaces := takeRun (· == ' ') name.rest
        spaces.after <$> readVersion spaces.rest
      else if word = "TAG" then
        let spaces := takeRun (· == ' ') name.rest
        spaces.after <$> readTagHandle spaces.rest
      else pure ((takeRun (fun c => !isBreak c) name.rest).map fun _ => .other)
    let line ← finishLine body.rest
    return name.after (body.after (line.map fun _ => body.value))

end ApiBindings.Yaml
