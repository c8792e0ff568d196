import ApiBindings.Document.Access

/-!
Documentation comments in front of a declaration: the lines of a description, each after a star.
-/

namespace ApiBindings.Naming

/-- The comment of a description, indented by `tab` spaces; an empty description has none. -/
def docComment (description : String) (tab : Nat) : String :=
  if description = "" then ""
  else
    let indent := String.ofList (List.replicate tab ' ')
    let lines := (Text.splitAt '\n' description).map fun line => indent ++ " * " ++ line
    "/**\n" ++ Text.joinWith "\n" lines ++ "\n" ++ indent ++ " */\n" ++ indent

/-- The comment of a description that may be missing; a filled one has to be a text. -/
def docCommentOf (description : Value) (tab : Nat) : Except Fault String :=
  if description.isFilled then do return docComment (← description.expectText) tab else .ok ""

end ApiBindings.Naming
