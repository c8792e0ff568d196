import ApiBindings.Text.WordChar

/-!
Route templates such as `/pets/{id}`: a placeholder is a name in braces, made of letters,
digits and `_`. In an interpolated template a dollar sign stands before the brace.
-/

namespace ApiBindings.Naming

/-- The name of a placeholder whose opening brace has just been read, and what follows it. -/
def placeholderTail? (s : List Char) : Option (List Char × List Char) :=
  let name := s.takeWhile Text.isWordChar
  match s.dropWhile Text.isWordChar with
  | '\x7d' :: rest => if name.isEmpty then none else some (name, rest)
  | _ => none

def placeholderNames : List Char → List (List Char)
  | [] => []
  | c :: cs =>
    if c = '\x7b' then
      match placeholderTail? cs with
      | some (name, _) => name :: placeholderNames cs
      | none => placeholderNames cs
    else placeholderNames cs

def placeholders (route : String) : List String :=
  (placeholderNames route.toList).map String.ofList

def interpolated (route : String) : String :=
  String.ofList (Text.expand '\x7b' ['$', '\x7b'] route.toList)

/-- The name of an interpolated placeholder between slashes that ends the text, up to a line
break. -/
def closingPlaceholder? : List Char → Option (List Char)
  | '/' :: '$' :: '\x7b' :: cs =>
    match placeholderTail? cs with
    | some (name, rest) =>
      if rest = [] ∨ rest = ['/'] ∨ rest = ['\n'] ∨ rest = ['/', '\n'] then some name else none
    | none => none
  | _ => none

def cutClosing? : List Char → Option (List Char × List Char)
  | [] => none
  | c :: cs =>
    match closingPlaceholder? (c :: cs) with
    | some name => some ([], name)
    | none => (cutClosing? cs).map fun (before, name) => (c :: before, name)

def cutLast? (route : String) : Option (String × String) :=
  (cutClosing? route.toList).map fun (before, name) => (String.ofList before, String.ofList name)

end ApiBindings.Naming
