import ApiBindings.Naming.PascalCase
import ApiBindings.TypeExpr.Basic
import ApiBindings.Document.Pointer

/-!
References to the components of a document. A reference names the collection and the component;
the type name is the component's name in PascalCase with the suffix of the collection.
-/

namespace ApiBindings.Schema

/-- The reference that a mapping consists of; an empty one is none. -/
def reference? (es : Entries) : Option Value := (es.get "$ref").filled?

def isReference : Value → Bool
  | .map _ es => (reference? es).isSome
  | _ => false

def schemasRoot : String := "#/components/schemas/"
def parametersRoot : String := "#/components/parameters/"

def collections : List (String × String) := [
  (schemasRoot, ""),
  ("#/components/responses/", "Response"),
  (parametersRoot, "Parameter"),
  ("#/components/requestBodies/", "RequestBody")]

def target? (ref : String) : List (String × String) → Option (String × String)
  | [] => none
  | (root, suffix) :: rest =>
    match Text.dropStart? root ref with
    | some path => some (suffix, path)
    | none => target? ref rest

/-- The type name of a reference: the last segment decides. -/
def referencedName (ref : String) (location : Option String) : Except Fault String :=
  match target? ref collections with
  | none => .error (.failure (.unsupportedReference ref) location)
  | some (suffix, path) => do
    let segment := (Text.splitAt '/' path).getLastD ""
    return (← Naming.pascalCase (Pointer.unescape segment)) ++ suffix

def referencedType (ref : Value) (location : Option String) : Except Fault TypeExpr := do
  return .named (← referencedName (← ref.expectText) location)

end ApiBindings.Schema
