import ApiBindings.Hook.Basic

/-!
Hooks that read. Besides the query itself each gets a function that invalidates its result.
-/

namespace ApiBindings.Hook

open Operation (Metadata)
open Declaration (Statement)

def queryFields (m : Metadata) : List String :=
  pathFields m
    ++ (match queryParams? m with | some q => ["params?: " ++ q] | none => [])
    ++ ["queryOptions?: UseQueryOptions<" ++ m.generics.response ++ ", " ++ m.generics.error ++ ">"]

def queryArguments (m : Metadata) : List String :=
  m.paramsInPath ++ (if (queryParams? m).isSome then ["params"] else []) ++ ["queryOptions"]

/-- The key of the result: the address, with the query parameters if there are any. -/
def queryKey (h : Hook) (m : Metadata) : String :=
  if (queryParams? m).isSome then "[" ++ h.template m.route ++ ", params]" else h.template m.route

def invalidateArguments (m : Metadata) : String :=
  if m.paramsInPath.isEmpty then ""
  else destructured m.paramsInPath ++ ": " ++ nameText m.pathParamsType

def queryConstant (h : Hook) (m : Metadata) : Statement where
  before := ""
  kind := .constant
  name := "use" ++ m.componentName
  after :=
    " = (" ++ destructured (queryArguments m) ++ ": Use" ++ m.componentName ++ "Props) =>\n"
      ++ "  useQuery<" ++ m.generics.response ++ ", " ++ m.generics.error ++ ">(\n"
      ++ "    " ++ queryKey h m ++ ",\n"
      ++ "    () => axios.get<" ++ m.generics.response ++ ">(" ++ h.template m.route ++ config m
      ++ ").then((res) => res.data),\n"
      ++ "    \x7b refetchOnMount: false, ...queryOptions \x7d\n"
      ++ "  );\n\n"

def invalidateConstant (h : Hook) (m : Metadata) : Statement where
  before := ""
  kind := .constant
  name := "useInvalidate" ++ m.componentName
  after :=
    " = (" ++ invalidateArguments m ++ ") =>\n"
      ++ "  useInvalidateQuery(" ++ h.template m.route ++ ", \"invalidate" ++ m.componentName
      ++ "\");\n\n"

def query (h : Hook) (m : Metadata) : List Statement :=
  [interface ("Use" ++ m.componentName ++ "Props") (queryFields m), queryConstant h m,
    invalidateConstant h m]

end ApiBindings.Hook
