import ApiBindings.Hook.Query

/-!
Hooks that change something, and the hook of an operation in general. A hook without any
argument takes `void`.
-/

namespace ApiBindings.Hook

open Operation (Metadata)
open Declaration (Statement Block)

/-- The verbs whose request carries a body as its second argument. -/
def bodyVerbs : List String := ["post", "put", "patch"]

def mutationFields (m : Metadata) : List String :=
  pathFields m
    ++ (match idName? m with | some name => [name ++ ": " ++ nameText m.idType] | none => [])
    ++ (match queryParams? m with | some q => ["params?: " ++ q] | none => [])
    ++ (match body? m with | some b => ["body: " ++ b] | none => [])

def mutationArguments (m : Metadata) : List String :=
  m.paramsInPath
    ++ (match idName? m with | some name => [name] | none => [])
    ++ (if (queryParams? m).isSome then ["params"] else [])
    ++ (if (body? m).isSome then ["body"] else [])

def request (h : Hook) (m : Metadata) : String :=
  let body :=
    if m.verb ∈ bodyVerbs then
      ", " ++ (if (body? m).isSome then "body" else "undefined")
    else ""
  "axios." ++ m.verb ++ "<" ++ m.generics.response ++ ">(" ++ h.template (fullRoute m) ++ body
    ++ config m ++ ")"

def variablesName (m : Metadata) : String := "Use" ++ m.componentName ++ "Variables"

def mutationConstant (h : Hook) (m : Metadata) : Statement where
  before := ""
  kind := .constant
  name := "use" ++ m.componentName
  after :=
    let isBare := (mutationFields m).isEmpty
    let arguments := if isBare then "()" else "(" ++ destructured (mutationArguments m) ++ ")"
    let types := m.generics.response ++ ", " ++ m.generics.error ++ ", "
      ++ (if isBare then "void" else variablesName m)
    " = (\n"
      ++ "  mutationOptions?: UseMutationOptions<" ++ types ++ ">\n"
      ++ ") =>\n"
      ++ "  useMutation<" ++ types ++ ">(\n"
      ++ "    " ++ arguments ++ " => " ++ request h m ++ ".then((res) => res.data),\n"
      ++ "    mutationOptions\n"
      ++ "  );\n\n"

def mutation (h : Hook) (m : Metadata) : List Statement :=
  (if (mutationFields m).isEmpty then [] else [interface (variablesName m) (mutationFields m)])
    ++ [mutationConstant h m]

def block (h : Hook) (m : Metadata) : Block :=
  ⟨Naming.docComment m.description 0 ++ "\n", if m.verb = "get" then h.query m else h.mutation m,
    "", ""⟩

def render (h : Hook) (m : Metadata) : String := (h.block m).text

end ApiBindings.Hook
