import ApiBindings.Operation.Metadata
import ApiBindings.Document.Access

/-!
Functions that a host offers by name: transformations of documents, and writers of further code
for an operation.
-/

namespace ApiBindings

/-- A function of the host, which may be called with a document or with an operation. -/
structure Extension where
  name : String
  transform : Value → Except Fault Value
  write : Operation.Metadata → Except Fault String

abbrev Host := List (String × List (String × Option Extension))

namespace Host

/-- The module and the member that a path names, which are separated by the first colon. -/
def splitPath (path : String) : String × String :=
  let cs := path.toList
  (String.ofList (cs.takeWhile (· != ':')), String.ofList ((cs.dropWhile (· != ':')).drop 1))

def find (host : Host) (path : String) : Except Fault Extension := do
  let (moduleName, member) := splitPath path
  if moduleName = "" ∨ member = "" then .error (.because (.malformedExtensionPath path))
  else if Text.beginsWith "." moduleName then .error (.misuse .wrongKind)
  else
    match host.lookup moduleName with
    | none => .error (.because (.missingExtensionModule moduleName))
    | some members =>
      match members.lookup member with
      | some (some extension) => .ok extension
      | _ => .error (.because (.notCallable path))

def find? (host : Host) (setting : Value) : Except Fault (Option Extension) := do
  if setting.isFilled then return some (← host.find (← setting.expectText)) else return none

end Host

end ApiBindings
