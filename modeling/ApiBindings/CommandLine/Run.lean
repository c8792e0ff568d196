import ApiBindings.Client.Bindings
import ApiBindings.CommandLine.Arguments
import ApiBindings.Config.File
import ApiBindings.Source

/-!
Carrying out a command line: bindings are made for one document or for the targets of a
configuration file, in its order, and the run ends with the first target that fails. A file is
opened only when its whole text is there.
-/

namespace ApiBindings.CommandLine

/-- What a run has changed: the files, the text that it prints, and the events that it tells. -/
structure State where
  tree : FileTree
  printed : String
  log : Log

/-- A step of a run. What it did before it fails stays done. -/
abbrev Doing := ExceptT Fault (StateM State)

structure Surroundings where
  host : Host
  web : Web

namespace Doing

/-- Hands a line to the output stream, which is taken to accept any text. -/
def say (line : String) : Doing Unit :=
  modify fun s => { s with printed := s.printed ++ line ++ "\n" }

def telling {α : Type} (t : Telling α) : Doing α := do
  let (result, log) := t.run.run []
  modify fun s => { s with log := s.log ++ log }
  (result : Except Fault α)

end Doing

open Doing

def claimedSource (c : Config) : Value := c.file.filled?.getD c.url

def makeBindings (around : Surroundings) (c : Config) : Doing String := do
  say ("🚀 Генерация типов из " ++ (claimedSource c).text)
  say "📥 Загрузка OpenAPI спецификации..."
  let tree := (← get).tree
  let source ← (SourceText.of tree around.web c.file c.url : Except Fault SourceText)
  let transformer ← (around.host.find? c.transformer : Except Fault (Option Extension))
  let generator ← (around.host.find? c.customGenerator : Except Fault (Option Extension))
  say "⚙️ Генерация кода..."
  let format := (c.format.filled?.map Value.text).getD source.format
  telling (Client.bindings source.text format
    ⟨transformer, generator, c.validation, c.skipHooks, c.customImport, c.encodingMode⟩)

def onFiles (path : String) (f : FileTree → Except FileProblem FileTree) : Doing Unit := do
  let s ← get
  match f s.tree with
  | .ok tree => set { s with tree := tree }
  | .error problem => throw (.file problem path)

def checkName (path : String) : Doing Unit :=
  match Path.misuse? path with
  | some misuse => throw (.misuse misuse)
  | none => pure ()

def makeParent (path : String) : Doing Unit := do
  let directory := Path.directory path
  if directory = "" then pure ()
  else
    checkName directory
    onFiles directory (·.makeDirectories directory)

def checkText (text : String) : Doing Unit :=
  if Text.isEncodable text then pure () else throw (.misuse .unencodable)

/-- Writes a text to a file, which is opened and emptied before the text is encoded. -/
def writeText (path text : String) : Doing Unit := do
  makeParent path
  checkName path
  onFiles path (·.write path "")
  checkText text
  onFiles path (·.write path text)

/-- Writes the bindings to the output file of a target, or prints them if it has none. -/
def deliver (text : String) (output : Value) (target : String) : Doing Unit := do
  if !output.isFilled then
    say text
    say "⚠️ Путь вывода не указан, результат выведен в stdout"
  else
    match output with
    | .scalar (.str path) => do
      writeText path text
      let home := "/" ++ Text.joinWith "/" (← get).tree.home
      let mark := if target = "" then "" else "[" ++ target ++ "] "
      say ("✅ " ++ mark ++ "Типы сгенерированы: " ++ Path.absolute home path)
    | _ => throw (.misuse .wrongKind)

def runTarget (around : Surroundings) (name : String) (c : Config) : Doing Unit := do
  let text ← makeBindings around c
  deliver text c.output name

def runTargets (around : Surroundings) : Targets → Doing Unit
  | [] => pure ()
  | (name, c) :: rest => do
    runTarget around name c
    runTargets around rest

def selected (targets : Targets) (names : List String) : Targets :=
  if names.isEmpty then targets else targets.filter fun t => names.contains t.1

def missingNames (targets : Targets) (names : List String) : List String :=
  names.filter fun name => !targets.any fun t => t.1 == name

def reportMissing (missing : List String) : Doing Unit :=
  if missing.isEmpty then pure ()
  else
    let verb := if missing.length = 1 then "не определена" else "не определены"
    say ("⚠️ " ++ Text.joinWith ", " missing ++ " " ++ verb ++ " в конфигурации!")

def success : Nat := 0

def failed : Nat := 1

def misunderstood : Nat := 2

def given (text : Option String) : Option String := text.filter (· != "")

def carryOut (around : Surroundings) (a : Arguments) : Doing Nat := do
  match given a.config with
  | some path =>
    match ← (Config.targetsAt (← get).tree path "" : Except Fault (Option Targets)) with
    | none =>
      say ("❌ Ошибка: конфиг " ++ path ++ " не найден")
      return failed
    | some targets =>
      let names := a.targets.getD []
      reportMissing (missingNames targets names)
      runTargets around (selected targets names)
      return success
  | none =>
    if (given a.file).isNone && (given a.url).isNone then
      say "❌ Ошибка: укажите спецификацию через --file, --url или --config"
      return failed
    else
      let c ← (Config.empty.mergedWith a.overrides : Except Fault Config)
      runTarget around "" c
      return success

/-- Failures end a run with a message; anything else goes on. -/
def reportingFailures (action : Doing Nat) : Doing Nat :=
  tryCatch action fun
    | .failure cause location => do
      say ("❌ Ошибка генерации: " ++ Fault.report cause location)
      return failed
    | f => throw f

structure Outcome where
  status : Except Fault Nat
  state : State

def runArguments (around : Surroundings) (tree : FileTree) (a : Arguments) : Outcome :=
  let (status, state) := (reportingFailures (carryOut around a)).run.run ⟨tree, "", []⟩
  ⟨status, state⟩

def helpLines : List String := [
  "usage: openapi-tsgen [-h] [-f FILE] [-u URL] [-o OUTPUT] [--skip-hooks]",
  "                     [--validation] [--encoding-mode \x7buriComponent,rfc3986\x7d]",
  "                     [--custom-import CUSTOM_IMPORT] [--config CONFIG] [-v]",
  "                     [targets ...]",
  "",
  "Генерация TypeScript типов и react-query hooks из OpenAPI",
  "",
  "positional arguments:",
  "  targets               Имена целей из конфига",
  "",
  "options:",
  "  -h, --help            show this help message and exit",
  "  -f FILE, --file FILE  Файл спецификации (yaml/json)",
  "  -u URL, --url URL     URL спецификации (yaml/json)",
  "  -o OUTPUT, --output OUTPUT",
  "                        Файл для результата",
  "  --skip-hooks          Генерировать только типы",
  "  --validation          Проверить спецификацию перед генерацией",
  "  --encoding-mode \x7buriComponent,rfc3986\x7d",
  "                        Кодирование параметров пути",
  "  --custom-import CUSTOM_IMPORT",
  "                        Строка импорта в заголовок",
  "  --config CONFIG       Конфиг openapi.toml с целями",
  "  -v, --verbose         Подробный лог"]

def helpText : String := String.join (helpLines.map (· ++ "\n"))

def run (around : Surroundings) (tree : FileTree) (words : List String) : Outcome :=
  match Arguments.ofTexts words with
  | .ok a => runArguments around tree a
  | .error .misunderstood => ⟨.ok misunderstood, ⟨tree, "", []⟩⟩
  | .error .helpWanted => ⟨.ok success, ⟨tree, helpText, []⟩⟩

end ApiBindings.CommandLine
