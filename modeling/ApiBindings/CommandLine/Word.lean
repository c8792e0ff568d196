import ApiBindings.Text.Digit

/-!
The words of a command line: options, in full or shortened, and values.
-/

namespace ApiBindings.CommandLine

inductive Flag where
  | help
  | file
  | url
  | output
  | skipHooks
  | validation
  | encodingMode
  | customImport
  | config
  | verbose
deriving DecidableEq

namespace Flag

def spellings : List (String × Flag) := [
  ("-h", .help), ("--help", .help), ("-f", .file), ("--file", .file), ("-u", .url), ("--url", .url),
  ("-o", .output), ("--output", .output), ("--skip-hooks", .skipHooks),
  ("--validation", .validation), ("--encoding-mode", .encodingMode),
  ("--custom-import", .customImport), ("--config", .config), ("-v", .verbose),
  ("--verbose", .verbose)]

def takesValue : Flag → Bool
  | .help => false
  | .skipHooks => false
  | .validation => false
  | .verbose => false
  | _ => true

end Flag

inductive Refusal where
  | misunderstood
  | helpWanted
deriving DecidableEq

/-- An option with what is attached to it, perhaps behind an equals sign. A short one has one
dash. -/
structure Opt where
  flag : Flag
  isShort : Bool
  isSeparated : Bool
  attached : Option (List Char)

inductive Word where
  | value (text : String)
  /-- The first word of two dashes; only values follow it. -/
  | separator
  | option (o : Opt)
  | unknown
deriving Inhabited

namespace Word

def isShortSpelling (s : String) : Bool := !Text.beginsWith "--" s

def splitEquals (s : String) : Option (String × List Char) :=
  let cs := s.toList
  if cs.contains '=' then
    some (String.ofList (cs.takeWhile (· != '=')), (cs.dropWhile (· != '=')).drop 1)
  else none

def spelled? (s : String) : Option Opt :=
  match Flag.spellings.lookup s with
  | some flag => some ⟨flag, isShortSpelling s, false, none⟩
  | none => do
    let (name, attached) ← splitEquals s
    let flag ← Flag.spellings.lookup name
    return ⟨flag, isShortSpelling name, true, some attached⟩

/-- The options whose long spelling a word begins, or whose short one begins the word. -/
def candidates (s : String) : List Opt :=
  if Text.beginsWith "--" s then
    let (name, attached) := match splitEquals s with
      | some (name, behind) => (name, some behind)
      | none => (s, none)
    (Flag.spellings.filter fun e => Text.beginsWith name e.1).map fun e =>
      ⟨e.2, isShortSpelling e.1, attached.isSome, attached⟩
  else
    let short := String.ofList (s.toList.take 2)
    Flag.spellings.filterMap fun e =>
      if e.1 = short then some ⟨e.2, true, false, some (s.toList.drop 2)⟩
      else if Text.beginsWith s e.1 then some ⟨e.2, isShortSpelling e.1, false, none⟩
      else none

/-- Whether a text is a dash and digits, with a point before the last ones or without. -/
def isNegativeNumber (s : List Char) : Bool :=
  match s with
  | '-' :: rest =>
    let rest := Text.dropFinal '\n' rest
    let behind := rest.dropWhile Text.isDecimalDigit
    match behind with
    | [] => !rest.isEmpty
    | '.' :: digits => !digits.isEmpty && digits.all Text.isDecimalDigit
    | _ => false
  | _ => false

/-- The word that a text is. A text that begins several options is misunderstood. -/
def of (s : String) : Except Refusal Word :=
  if !Text.beginsWith "-" s ∨ s = "-" then .ok (.value s)
  else
    match spelled? s with
    | some o => .ok (.option o)
    | none =>
      match candidates s with
      | [o] => .ok (.option o)
      | _ :: _ :: _ => .error .misunderstood
      | [] =>
        if isNegativeNumber s.toList || s.toList.contains ' ' then .ok (.value s)
        else .ok .unknown

def ofTexts : List String → Except Refusal (List Word)
  | [] => .ok []
  | s :: rest =>
    if s = "--" then .ok (.separator :: rest.map .value)
    else do
      let word ← of s
      return word :: (← ofTexts rest)

end Word

end ApiBindings.CommandLine
