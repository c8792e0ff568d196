import ApiBindings.Schema.Resolve

/-!
The type of a request or response body. Of the media types of a body the first that a known
prefix matches decides, and the prefixes are tried in a fixed order.
-/

namespace ApiBindings.Schema

/-- Beginnings of the media types that a type is taken from, the preferred one first. -/
def mediaPriority : List String := ["*/*", "application/json", "application/octet-stream"]

def findMedia? (start : String) : List (Scalar × Value) → Except Fault (Option (String × Value))
  | [] => .ok none
  | (key, media) :: rest => do
    let name ← Value.expectText (.scalar key)
    if Text.beginsWith start name then return some (name, media) else findMedia? start rest

def selectMedia? (content : List (Scalar × Value)) :
    List String → Except Fault (Option (String × Value))
  | [] => .ok none
  | start :: rest => do
    match ← findMedia? start content with
    | some found => return some found
    | none => selectMedia? content rest

/-- The type of the body of a request or a response; a body without content is void. -/
def contentType (body : Value) (location : String) : Except Fault TypeExpr :=
  match body with
  | .map _ es =>
    match reference? es with
    | some ref => referencedType ref (some location)
    | none =>
      if (Entries.get es "content").isFilled then do
        let content ← (Entries.get es "content").entries
        match ← selectMedia? content mediaPriority with
        | none => return .void
        | some (name, media) =>
          let schema := Entries.get (← media.entriesOrNone) "schema"
          typeOf schema (location ++ "/content/" ++ name ++ "/schema")
      else .ok .void
  | _ => .ok .void

def contentUnion (bodies : List (Scalar × Value)) (location : String) :
    Except Fault (Option TypeExpr) := do
  let types ← bodies.mapM fun (code, body) => contentType body (location ++ "/" ++ code.text)
  return TypeExpr.unionOf types

end ApiBindings.Schema
