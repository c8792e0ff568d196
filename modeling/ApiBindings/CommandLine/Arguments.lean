import ApiBindings.CommandLine.Word
import ApiBindings.Config.Basic

/-!
What a command line asks for.
-/

namespace ApiBindings.CommandLine

structure Arguments where
  targets : Option (List String)
  file : Option String
  url : Option String
  output : Option String
  skipHooks : Bool
  validation : Bool
  encodingMode : Option String
  customImport : Option String
  config : Option String
  verbose : Bool

namespace Arguments

def empty : Arguments :=
  ⟨none, none, none, none, false, false, none, none, none, false⟩

def withFlag (a : Arguments) : Flag → Except Refusal Arguments
  | .help => .error .helpWanted
  | .skipHooks => .ok { a with skipHooks := true }
  | .validation => .ok { a with validation := true }
  | .verbose => .ok { a with verbose := true }
  | _ => .error .misunderstood

def withValue (a : Arguments) (value : String) : Flag → Except Refusal Arguments
  | .file => .ok { a with file := some value }
  | .url => .ok { a with url := some value }
  | .output => .ok { a with output := some value }
  | .encodingMode =>
    if Config.encodingModes.contains value then .ok { a with encodingMode := some value }
    else .error .misunderstood
  | .customImport => .ok { a with customImport := some value }
  | .config => .ok { a with config := some value }
  | _ => .error .misunderstood

/-- The options of a word: those without a value that it puts together, and the last one with what
is attached to it, unless the word goes on with no option. -/
structure Bundle where
  flags : List Flag
  last : Option Opt

def Bundle.cons (flag : Flag) (b : Bundle) : Bundle := { b with flags := flag :: b.flags }

def unbundle (flag : Flag) (isShort isSeparated : Bool) : List Char → Except Refusal Bundle
  | [] =>
    if flag.takesValue then .ok ⟨[], some ⟨flag, isShort, isSeparated, some []⟩⟩
    else .error .misunderstood
  | c :: rest =>
    if flag.takesValue then .ok ⟨[], some ⟨flag, isShort, isSeparated, some (c :: rest)⟩⟩
    else if !isShort || isSeparated || c == '-' then .error .misunderstood
    else
      match Flag.spellings.lookup (String.ofList ['-', c]) with
      | none => .ok ⟨[flag], none⟩
      | some next =>
        match rest with
        | [] => .ok ⟨[flag], some ⟨next, true, false, none⟩⟩
        | '=' :: value => (Bundle.cons flag) <$> unbundle next true true value
        | c :: rest => (Bundle.cons flag) <$> unbundle next true false (c :: rest)

def optionsOf (o : Opt) : Except Refusal Bundle :=
  match o.attached with
  | none => .ok ⟨[], some o⟩
  | some text => unbundle o.flag o.isShort o.isSeparated text

def targetNames (words : List Word) : List String :=
  (words.map fun
    | .value s => s
    | _ => "--").erase "--"

structure Reading where
  arguments : Arguments
  hasLeftovers : Bool

def Reading.closed (r : Reading) (chunk : List Word) : Reading :=
  if chunk.isEmpty then r
  else
    match r.arguments.targets with
    | none => { r with arguments := { r.arguments with targets := some (targetNames chunk) } }
    | some _ => { r with hasLeftovers := true }

/-- Reads words from left to right. `chunk` holds the words before them that are no options. -/
def Reading.words (r : Reading) (chunk : List Word) : List Word → Except Refusal Reading
  | [] => .ok (r.closed chunk)
  | .value s :: rest => words r (chunk ++ [.value s]) rest
  | .separator :: rest => words r (chunk ++ [.separator]) rest
  | .unknown :: rest => words { r.closed chunk with hasLeftovers := true } [] rest
  | .option o :: rest => do
    let r := r.closed chunk
    let ⟨flags, last⟩ ← optionsOf o
    match last with
    | none => words ⟨← flags.foldlM withFlag r.arguments, true⟩ [] rest
    | some last =>
      match last.flag.takesValue, last.attached, rest with
      | true, some text, rest =>
        let a ← (← flags.foldlM withFlag r.arguments).withValue (String.ofList text) last.flag
        words { r with arguments := a } [] rest
      | true, none, .value s :: rest =>
        let a ← (← flags.foldlM withFlag r.arguments).withValue s last.flag
        words { r with arguments := a } [] rest
      | true, none, _ => .error .misunderstood
      | false, _, rest =>
        let a ← (← flags.foldlM withFlag r.arguments).withFlag last.flag
        words { r with arguments := a } [] rest

def ofTexts (texts : List String) : Except Refusal Arguments := do
  let r ← Reading.words ⟨empty, false⟩ [] (← Word.ofTexts texts)
  if r.hasLeftovers then .error .misunderstood else return r.arguments

def overrides (a : Arguments) : Config.Overrides :=
  let text : Option String → Value
    | some s => .str s
    | none => .null
  ⟨text a.file, text a.url, text a.output, .bool a.skipHooks, .bool a.validation,
    text a.customImport, text a.encodingMode⟩

end Arguments

end ApiBindings.CommandLine
