import ApiBindings.TypeExpr.Basic
import ApiBindings.Naming.Identifier
import ApiBindings.Naming.DocComment

/-!
Type expressions as TypeScript text. Parentheses stand around alternatives and intersections
that are elements of an array or a tuple, and around alternatives inside of an intersection.
-/

namespace ApiBindings.TypeExpr

def renderField (field : Field) (type : String) : String :=
  "  " ++ Naming.docComment (field.description.getD "") 2 ++ Naming.propertyKey field.name
    ++ (if field.required then "" else "?") ++ ": " ++ type ++ ";"

def parenthesized (needed : Bool) (text : String) : String :=
  if needed then "(" ++ text ++ ")" else text

mutual

def render : TypeExpr → String
  | .primitive name => name
  | .named name => name
  | .literals tokens => Text.joinWith " | " tokens
  | .array item => parenthesized item.isComposite (render item) ++ "[]"
  | .tuple item length =>
    let text := parenthesized item.isComposite (render item)
    "[" ++ Text.joinWith ", " (List.replicate length.toNat text) ++ "]"
  | .freeFormMap => "\x7b[key: string]: any\x7d"
  | .shape [] none => "\x7b\x7d"
  | .shape fields index =>
    "\x7b\n" ++ Text.joinWith "\n" (renderFields fields ++ renderIndex index) ++ "\n\x7d"
  | .union members => Text.joinWith " | " (renderMembers members)
  | .intersection members => Text.joinWith " & " (renderFactors members)
  | .requiring inner keys =>
    "Require<" ++ render inner ++ ", " ++ Text.joinWith " | " (keys.map Text.quote) ++ ">"

def renderMembers : List TypeExpr → List String
  | [] => []
  | t :: ts => render t :: renderMembers ts

def renderFactors : List TypeExpr → List String
  | [] => []
  | t :: ts => parenthesized t.isAlternatives (render t) :: renderFactors ts

def renderFields : List (Field × TypeExpr) → List String
  | [] => []
  | (field, t) :: rest => renderField field (render t) :: renderFields rest

def renderIndex : Option TypeExpr → List String
  | none => []
  | some t => ["  [key: string]: " ++ render t ++ ";"]

end

/-- The expression as it stands under a postfix operator. -/
def wrapped (t : TypeExpr) : String := parenthesized t.isComposite t.render

end ApiBindings.TypeExpr
