import ApiBindings.Client.Generate
import ApiBindings.Document.Load
import ApiBindings.Extension
import ApiBindings.Lint.Check

/-!
From the text of a document to the text of its bindings.
-/

namespace ApiBindings.Client

/-- How bindings are made. The fields that come from a configuration hold what it gives. -/
structure Settings where
  transformer : Option Extension
  customGenerator : Option Extension
  validation : Value
  skipHooks : Value
  customImport : Value
  encodingMode : Value

def Settings.options (s : Settings) : Except Fault Operation.Options := do
  let customImport ← s.customImport.optionalTextField
  let encodingMode ← s.encodingMode.optionalTextField
  return ⟨!s.skipHooks.isFilled, customImport, encodingMode, s.customGenerator.map (·.write)⟩

/-- The bindings of a document in a format. The document is checked only to tell what is wrong
with it. -/
def bindings (text format : String) (s : Settings) : Telling String := do
  let document ← Document.load text format (s.transformer.map (·.transform))
  if s.validation.isFilled then
    let _ ← Lint.run document false
  let options ← (s.options : Except Fault Operation.Options)
  let (output, log) := generate document options
  Telling.tellAll log
  return (← (output : Except Fault Output)).text

end ApiBindings.Client
