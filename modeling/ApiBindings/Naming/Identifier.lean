import ApiBindings.Text.Quoted

/-!
Property keys. A name that can stand bare in TypeScript does, any other is quoted.
-/

namespace ApiBindings.Naming

def isIdentifierStart (c : Char) : Bool := c.isAlpha || c == '_' || c == '$'

def isIdentifierPart (c : Char) : Bool := c.isAlphanum || c == '_' || c == '$'

def isBare : List Char → Bool
  | [] => false
  | c :: cs => isIdentifierStart c && cs.all isIdentifierPart

/-- An identifier, which one line break may follow. -/
def isIdentifier (name : String) : Bool := isBare (Text.dropFinal '\n' name.toList)

def propertyKey (name : String) : String := if isIdentifier name then name else Text.quote name

end ApiBindings.Naming
