import ApiBindings.Operation.Metadata
import ApiBindings.Declaration.Statement
import ApiBindings.Naming.DocComment

/-!
The react-query hook of an operation: the arguments it takes apart, the members of its argument
type and the address it asks for.
-/

namespace ApiBindings

structure Hook where
  /-- Whether the template carries the tag that encodes its arguments. -/
  encodes : Bool

namespace Hook

open Operation (Metadata)
open Declaration (Statement)

/-- Addresses are encoded as soon as a mode is chosen. -/
def ofMode (mode : Option String) : Hook := ⟨(mode.getD "") != ""⟩

def template (h : Hook) (route : String) : String :=
  (if h.encodes then "encode" else "") ++ "`" ++ route ++ "`"

/-- The argument of the placeholder that a deletion has cut off: `id`, unless the route has a
placeholder of that name. -/
def idName? (m : Metadata) : Option String :=
  match m.idParam with
  | none => none
  | some name => if name = "" then none else if "id" ∈ m.paramsInPath then some name else some "id"

def fullRoute (m : Metadata) : String :=
  match idName? m with
  | some name => m.route ++ "/$\x7b" ++ name ++ "\x7d"
  | none => m.route

def named? (name : Option String) : Option String :=
  match name with
  | some s => if s = "" then none else some s
  | none => none

def pathFields (m : Metadata) : List String :=
  if m.paramsTypes = "" then [] else [m.paramsTypes]

def queryParams? (m : Metadata) : Option String := named? m.queryParamsType

def body? (m : Metadata) : Option String := named? m.requestBodyType

def nameText (name : Option String) : String := name.getD "None"

def config (m : Metadata) : String :=
  if (queryParams? m).isSome then ", \x7b params \x7d" else ""

def destructured (names : List String) : String :=
  "\x7b " ++ Text.joinWith ", " names ++ " \x7d"

def interface (name : String) (members : List String) : Statement :=
  ⟨"", .interface, name, " \x7b\n  " ++ Text.joinWith ";\n  " members ++ ";\n\x7d\n\n"⟩

end Hook

end ApiBindings
