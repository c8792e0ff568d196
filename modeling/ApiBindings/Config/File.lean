import ApiBindings.Config.Basic
import ApiBindings.Files.Tree
import ApiBindings.Toml.Reader
import ApiBindings.Toml.Writer

/-!
Configurations in files. A file holds one target or several named ones, in order.
-/

namespace ApiBindings

abbrev Targets := List (String × Config)

namespace Config

def fileName : String := "openapi.toml"

def onlyTarget : String := "default"

/-- The file in a directory, or else the one at a path. A directory without the file does not
count. -/
def locate (tree : FileTree) (path searchDirectory : String) : String :=
  let inDirectory := (if Text.endsWith "/" searchDirectory then searchDirectory
    else searchDirectory ++ "/") ++ fileName
  if searchDirectory ≠ "" ∧ tree.isDirectoryAt searchDirectory ∧ tree.exists? inDirectory then
    inDirectory
  else path

def readEntries (tree : FileTree) (path : String) : Except Fault Entries :=
  match tree.read path with
  | .error problem => .error (.file problem path)
  | .ok text =>
    match Toml.read text.toList with
    | .ok v => v.entries
    | .error .malformed => .error (.because (.malformedConfig path))
    | .error (.misuse m) => .error (.misuse m)

def targetsOf (es : Entries) : Except Fault Targets :=
  match es.get? "targets" with
  | some targets => do (← targets.entries).mapM fun (name, v) => do return (name.text, ← ofValue v)
  | none => do return [(onlyTarget, ← ofValue (.ofEntries es))]

def targetsAt (tree : FileTree) (path searchDirectory : String) :
    Except Fault (Option Targets) :=
  let path := locate tree path searchDirectory
  if tree.exists? path then do return some (← targetsOf (← readEntries tree path))
  else .ok none

def load (tree : FileTree) (path searchDirectory : String) : Except Fault (Option Config) := do
  match ← targetsAt tree path searchDirectory with
  | none => return none
  | some [(_, c)] => return some c
  | some _ => .error (.because (.severalTargets path))

/-- The fields that are written to a file: those that are neither null nor equal to false. -/
def givenEntries (c : Config) : Entries :=
  (c.fields.filter fun f => !f.2.equals .null && !f.2.equals (.bool false)).map fun f =>
    (.str f.1, f.2)

def fileText (c : Config) : Except Fault String :=
  match Toml.write c.givenEntries with
  | .ok text => .ok text
  | .error .malformed => .error (.misuse .invalidValue)
  | .error (.misuse m) => .error (.misuse m)

def save (c : Config) (tree : FileTree) (path : String) : Except Fault FileTree := do
  let text ← c.fileText
  match tree.write path text with
  | .ok tree => return tree
  | .error problem => .error (.file problem path)

end Config

end ApiBindings
