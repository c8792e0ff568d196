import ApiBindings.CommandLine.Run

/-!
The program. It reads the files that its command line names, carries the command line out, and
writes what has changed.
-/

namespace ApiBindings.CommandLine

def placeOf (tree : FileTree) (path : String) : Place :=
  Path.follow [] ((if Text.beginsWith "/" path then [] else tree.home) ++ Path.parts path)

def namedDocuments (tree : FileTree) (a : Arguments) : List String :=
  match given a.config with
  | none => a.file.toList
  | some path =>
    match Config.targetsAt tree path "" with
    | .ok (some targets) => targets.filterMap fun t => match t.2.file with
      | .scalar (.str file) => some file
      | _ => none
    | _ => []

def withFile (tree : FileTree) (path : String) : IO FileTree := do
  try
    let text ← IO.FS.readFile path
    return { tree with files := tree.files ++ [(placeOf tree path, text)] }
  catch _ => return tree

def readNamed (home : Place) (a : Arguments) : IO FileTree := do
  let tree ← a.config.toList.foldlM withFile ⟨home, [], []⟩
  (namedDocuments tree a).foldlM withFile tree

def pathOf (place : Place) : String := "/" ++ Text.joinWith "/" place

/-- Writes the files in which a tree differs from the one before. -/
def writeChanged (before after : FileTree) : IO Unit := do
  for (place, text) in after.files do
    if before.file? place != some text then
      IO.FS.createDirAll (pathOf place.dropLast)
      IO.FS.writeFile (pathOf place) text

def printLog (isVerbose : Bool) (log : Log) : IO Unit := do
  for event in log do
    if isVerbose || event.level.isImportant then
      IO.eprintln event.line

def faultText : Fault → String
  | .failure cause location => Fault.report cause location
  | .file problem path => problem.report path
  | .misuse .unencodable => "A text holds half of a surrogate pair, for which a file has no place."
  | .misuse _ => "A value of the configuration or of the document has a kind that does not fit."

end ApiBindings.CommandLine

open ApiBindings ApiBindings.CommandLine in
def main (words : List String) : IO UInt32 := do
  let home := Path.follow [] (Path.parts (← IO.currentDir).toString)
  let arguments := Arguments.ofTexts words
  let before ← match arguments with
    | .ok a => readNamed home a
    | .error _ => pure ⟨home, [], []⟩
  let isVerbose := match arguments with
    | .ok a => a.verbose
    | .error _ => false
  let outcome := run ⟨[], fun _ => none⟩ before words
  writeChanged before outcome.state.tree
  IO.print outcome.state.printed
  printLog isVerbose outcome.state.log
  match outcome.status with
  | .ok status => return status.toUInt32
  | .error fault =>
    IO.eprintln (faultText fault)
    return failed.toUInt32
