import ApiBindings.Text.Basic

/-!
Paths of files as texts with slashes.
-/

namespace ApiBindings.Path

def parts (path : String) : List String := Text.splitAt '/' path

def baseName (path : String) : String := (parts path).getLast?.getD ""

/-- The part of a path before its last slash, without slashes at its end. The root is kept. -/
def directory (path : String) : String :=
  let behind := path.toList.reverse.dropWhile (· != '/')
  let before := behind.dropWhile (· == '/')
  String.ofList (if before.isEmpty then behind.reverse else before.reverse)

def trimmed (path : String) : String :=
  String.ofList (path.toList.reverse.dropWhile (· == '/')).reverse

/-- The ending of a file name: from its last dot on, if something but dots comes before it. -/
def ending (path : String) : String :=
  let name := (baseName path).toList
  let after := name.reverse.takeWhile (· != '.')
  let before := name.take (name.length - after.length - 1)
  if after.length < name.length && before.any (· != '.') then String.ofList ('.' :: after.reverse)
  else ""

def format (path : String) : String :=
  if [".yaml", ".yml"].contains (Text.lowerAscii (ending path)) then "yaml" else "json"

/-- The parts that remain when a path is followed, with `..` taking back the part before it. -/
def follow (done : List String) : List String → List String
  | [] => done
  | part :: rest =>
    if part = "" ∨ part = "." then follow done rest
    else if part = ".." then follow done.dropLast rest
    else follow (done ++ [part]) rest

def absolute (home path : String) : String :=
  let start := if Text.beginsWith "/" path then [] else parts home
  "/" ++ Text.joinWith "/" (follow [] (start ++ parts path))

end ApiBindings.Path
