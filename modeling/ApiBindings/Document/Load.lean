import ApiBindings.Document.Access
import ApiBindings.Document.Display
import ApiBindings.Json.Reader
import ApiBindings.Log
import ApiBindings.Yaml.Reader

/-!
Loading an API description: its text is read in its format, may be transformed, and must then be
of a version that is supported.
-/

namespace ApiBindings.Document

def supportedVersion : String := "3.0"

def readYaml (text format : String) : Except Fault Value :=
  match Yaml.read text.toList with
  | .ok v => .ok v
  | .error .malformed => .error (.because (.malformedDocument format none))
  | .error (.misuse m) => .error (.misuse m)

def readJson (text format : String) : Except Fault Value :=
  match Json.read text.toList with
  | .ok v => .ok v
  | .error (.malformed complaint left) =>
    .error (.because (.malformedDocument format (some (complaint.report text.toList left))))
  | .error .hugeInteger => .error (.misuse .invalidValue)

/-- The mapping that a text describes. Every format that is not YAML is read as JSON. -/
def read (text format : String) : Except Fault Value := do
  let v ← if format = "yaml" then readYaml text format else readJson text format
  if v.isMap then return v else .error (.because (.notAnObject v.kindName))

def textUnder (es : Entries) (key : String) : String :=
  match es.get? key with
  | some v => v.text
  | none => ""

def claimedVersion (es : Entries) : Value := ((es.get "openapi").filled?).getD (es.get "swagger")

def accept (document : Value) : Telling Value := do
  let es ← (document.entries : Except Fault Entries)
  if !Text.beginsWith supportedVersion (textUnder es "openapi") then
    throw (.because (.unsupportedVersion (claimedVersion es).literal))
  let info ← ((es.get "info").entriesOrNone : Except Fault Entries)
  Telling.tell ⟨.info, .document,
    "Загружена спецификация " ++ textUnder info "title" ++ " " ++ textUnder info "version"⟩
  return document

def load (text format : String) (transform : Option (Value → Except Fault Value)) :
    Telling Value := do
  let document ← (read text format : Except Fault Value)
  match transform with
  | none => accept document
  | some f =>
    let changed ← (f document : Except Fault Value)
    if changed.isMap then accept changed
    else throw (.because .transformedToNoObject)

end ApiBindings.Document
