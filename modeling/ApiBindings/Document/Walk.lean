import ApiBindings.Document.Display

/-!
The mappings of a document with the paths that lead to them.
-/

namespace ApiBindings.Value

mutual

/-- Every mapping inside of a value in preorder, with the path of keys and indexes to it. -/
def mappings (path : String) : Value → List (String × Entries)
  | .map _ es => (path, es) :: entryMappings path es
  | .list items => itemMappings path 0 items
  | _ => []

def itemMappings (path : String) (index : Nat) : List Value → List (String × Entries)
  | [] => []
  | v :: vs => mappings (path ++ "/" ++ Text.ofNat index) v ++ itemMappings path (index + 1) vs

def entryMappings (path : String) : List (Scalar × Value) → List (String × Entries)
  | [] => []
  | (k, v) :: es => mappings (path ++ "/" ++ k.text) v ++ entryMappings path es

end

end ApiBindings.Value
