import ApiBindings.Document.Value

/-!
Pointers into a document: keys with slashes between them, in which `~1` stands for a slash and
`~0` for a tilde.
-/

namespace ApiBindings.Pointer

/-- A segment as the key it stands for: first `~1` is a slash, then `~0` a tilde. -/
def unescape (segment : String) : String :=
  String.ofList (Text.contract '~' '0' '~' (Text.contract '~' '1' '/' segment.toList))

def keys (pointer : String) : List String := (Text.splitAt '/' pointer).map unescape

/-- The node that the keys lead to, through mappings only. -/
def follow? : Value → List String → Option Value
  | v, [] => some v
  | .map _ es, key :: keys =>
    match Entries.get? es key with
    | some w => follow? w keys
    | none => none
  | _, _ :: _ => none

def leadsInto (document : Value) (pointer : String) : Bool :=
  (follow? document (keys pointer)).isSome

end ApiBindings.Pointer
