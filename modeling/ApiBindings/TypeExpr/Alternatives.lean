import ApiBindings.TypeExpr.Basic
import ApiBindings.Document.Display
import ApiBindings.Document.Access
import ApiBindings.Text.Quoted

/-!
Alternatives: enumerations as literal tokens, unions without repeated members, and types that
admit null.
-/

namespace ApiBindings.TypeExpr

/-- The token of an enumerated value. With `asText` every value but null is a quoted text. -/
def literalToken (asText : Bool) : Value → String
  | .scalar .null => "null"
  | v =>
    if asText then Text.quote v.text
    else match v with
      | .scalar (.bool b) => if b then "true" else "false"
      | .scalar (.str s) => Text.quote s
      | v => v.text

def ofEnum (values : Value) (asText : Bool) : Except Fault TypeExpr := do
  return .literals ((← values.elements).map (literalToken asText))

def distinct (members : List TypeExpr) : List TypeExpr :=
  members.foldl (fun seen t => if t ∈ seen then seen else seen ++ [t]) []

/-- The union of the distinct members; one member is its own union, and none has none. -/
def unionOf (members : List TypeExpr) : Option TypeExpr :=
  match distinct members with
  | [] => none
  | [t] => some t
  | ts => some (.union ts)

def nullable (t : TypeExpr) : TypeExpr :=
  if t = null then t
  else match t with
    | .literals tokens => if "null" ∈ tokens then t else .union [t, null]
    | .union members => .union (members ++ [null])
    | t => .union [t, null]

end ApiBindings.TypeExpr
