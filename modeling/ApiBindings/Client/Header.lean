import ApiBindings.Text.Basic

/-!
The fixed parts of a generated file: its banner, its imports and the helpers that the generated
code may use.
-/

namespace ApiBindings.Client

def banner : String :=
  "/* Generated by openapi-tsgen */\n" ++
  "\n"

def libraryImports : String :=
  "import \x7b useQuery, useMutation, useQueryClient, UseQueryOptions, UseMutationOptions \x7d from \"react-query\";\n" ++
  "import axios from \"axios\";\n"

def invalidateHelper : String :=
  "\n" ++
  "const useInvalidateQuery = <T extends string>(\n" ++
  "  queryKey: string,\n" ++
  "  as: T\n" ++
  "): Record<T, () => void> => \x7b\n" ++
  "  const queryClient = useQueryClient();\n" ++
  "  return \x7b [as]: () => queryClient.invalidateQueries(queryKey) \x7d as any;\n" ++
  "\x7d;\n"

def requireHelper : String :=
  "\n" ++
  "type Require<T, R extends keyof T> = T & Required<Pick<T, R>>;\n"

def componentEncoding : String :=
  "const encodingFn = encodeURIComponent;\n"

def strictEncoding : String :=
  "const encodingFn = (uriComponent: string | number | boolean) => \x7b\n" ++
  "  return encodeURIComponent(uriComponent).replace(\n" ++
  "    /[!'()*]/g,\n" ++
  "    (c: string) => `%$\x7bc.charCodeAt(0).toString(16)\x7d`,\n" ++
  "  );\n" ++
  "\x7d;\n"

def encodingTag : String :=
  "\n" ++
  "const encodingTagFactory = (encodingFn: typeof encodeURIComponent) => (\n" ++
  "  strings: TemplateStringsArray,\n" ++
  "  ...params: (string | number | boolean)[]\n" ++
  ") =>\n" ++
  "  strings.reduce(\n" ++
  "    (accumulatedPath, pathPart, idx) =>\n" ++
  "      `$\x7baccumulatedPath\x7d$\x7bpathPart\x7d$\x7b\n" ++
  "        idx < params.length ? encodingFn(params[idx]) : ''\n" ++
  "      \x7d`,\n" ++
  "    '',\n" ++
  "  );\n" ++
  "\n" ++
  "const encode = encodingTagFactory(encodingFn);\n" ++
  "\n"

structure Needs where
  requireHelper : Bool
  encoding : Bool
  libraries : Bool
  invalidate : Bool
deriving DecidableEq

def encodingFunction (mode : String) : String :=
  if mode = "uriComponent" then componentEncoding else strictEncoding

/-- The head of a file: the banner, then what is needed, with the import of the user after the
imports of the libraries. -/
def header (needs : Needs) (customImport mode : String) : String :=
  banner
    ++ (if needs.libraries then libraryImports else "")
    ++ (if customImport = "" then "" else "\n" ++ customImport ++ "\n")
    ++ (if needs.invalidate then invalidateHelper else "")
    ++ (if needs.requireHelper then requireHelper else "")
    ++ (if needs.encoding then "\n" ++ encodingFunction mode ++ encodingTag else "")

def Needs.of (body : String) (mode : String) : Needs where
  requireHelper := occurs "Require<"
  encoding := mode != "" && occurs "encode`"
  libraries := occurs "useQuery<" || occurs "useMutation<"
  invalidate := occurs "useInvalidateQuery("
where
  occurs (part : String) : Bool := Text.occursIn part.toList body.toList

end ApiBindings.Client
