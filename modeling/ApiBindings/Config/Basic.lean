import ApiBindings.Document.Access
import ApiBindings.Document.Display
import ApiBindings.Document.Order

/-!
The configuration of one target. Its fields hold what was given, of any kind; only the format and
the encoding mode are checked.
-/

namespace ApiBindings

structure Config where
  file : Value
  url : Value
  format : Value
  output : Value
  skipHooks : Value
  validation : Value
  customImport : Value
  encodingMode : Value
  transformer : Value
  customGenerator : Value

namespace Config

def empty : Config :=
  ⟨.null, .null, .null, .null, .bool false, .bool false, .null, .null, .null, .null⟩

def fields (c : Config) : List (String × Value) := [
  ("file", c.file), ("url", c.url), ("format", c.format), ("output", c.output),
  ("skip_hooks", c.skipHooks), ("validation", c.validation), ("custom_import", c.customImport),
  ("path_parameters_encoding_mode", c.encodingMode), ("transformer", c.transformer),
  ("custom_generator", c.customGenerator)]

def names : List String := empty.fields.map (·.1)

def formats : List String := ["yaml", "json"]

def encodingModes : List String := ["uriComponent", "rfc3986"]

def isOneOf (v : Value) (texts : List String) : Bool := texts.any fun t => v.equals (.str t)

/-- The configuration, if its format and its encoding mode are known ones or empty. -/
def checked (c : Config) : Except Fault Config :=
  if c.format.isFilled && !isOneOf c.format formats then
    .error (.because (.unknownFormat c.format.literal))
  else if c.encodingMode.isFilled && !isOneOf c.encodingMode encodingModes then
    .error (.because (.unknownEncodingMode c.encodingMode.literal))
  else .ok c

def ofEntries (es : Entries) : Except Fault Config :=
  let field (name : String) (otherwise : Value) : Value := (es.get? name).getD otherwise
  checked {
    file := field "file" .null
    url := field "url" .null
    format := field "format" .null
    output := field "output" .null
    skipHooks := field "skip_hooks" (.bool false)
    validation := field "validation" (.bool false)
    customImport := field "custom_import" .null
    encodingMode := field "path_parameters_encoding_mode" .null
    transformer := field "transformer" .null
    customGenerator := field "custom_generator" .null }

def distinct (keys : List Scalar) : List Scalar :=
  (Entries.ofList (keys.map fun k => (k, .null))).map (·.1)

def unknownNames (keys : List Scalar) : Except Fault (List Scalar) :=
  Scalar.sorted ((distinct keys).filter fun k => !names.any fun n => k.isKey (.str n))

/-- The configuration that a value gives. Its elements must be names of fields, and it must be a
mapping. -/
def ofValue (v : Value) : Except Fault Config := do
  let keys ← (← v.elements).mapM Value.expectKey
  let unknown ← unknownNames keys
  if !unknown.isEmpty then
    throw (.because (.unknownSettings (Value.list (unknown.map .scalar)).literal))
  match v with
  | .map _ es => ofEntries es
  | _ => throw (.misuse .wrongKind)

structure Overrides where
  file : Value
  url : Value
  output : Value
  skipHooks : Value
  validation : Value
  customImport : Value
  encodingMode : Value

def mergedWith (c : Config) (o : Overrides) : Except Fault Config :=
  let either (first second : Value) : Value := first.filled?.getD second
  checked { c with
    file := either o.file c.file
    url := either o.url c.url
    output := either o.output c.output
    skipHooks := either o.skipHooks c.skipHooks
    validation := either o.validation c.validation
    customImport := either o.customImport c.customImport
    encodingMode := either o.encodingMode c.encodingMode }

def equals (a b : Config) : Bool :=
  (a.fields.zip b.fields).all fun (x, y) => x.2.equals y.2

end Config

end ApiBindings
