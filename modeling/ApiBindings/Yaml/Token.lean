import ApiBindings.Yaml.Glyph

/-!
Tokens of a YAML text. Indentation is made explicit: a block collection opens with a start and
closes with an end of its own.
-/

namespace ApiBindings.Yaml

inductive Directive where
  | version (major : Nat)
  | tagHandle (handle root : String)
  | other
deriving DecidableEq

inductive Token where
  | directive (d : Directive)
  | documentStart
  | documentEnd
  | blockSequenceStart
  | blockMappingStart
  | blockEnd
  | flowSequenceStart
  | flowSequenceEnd
  | flowMappingStart
  | flowMappingEnd
  | flowEntry
  | blockEntry
  | key
  | value
  | alias_ (name : String)
  | anchor (name : String)
  /-- A tag as written; without a handle its suffix is the whole tag. -/
  | tag (handle : Option String) (suffix : String)
  | scalar (plain : Bool) (text : String)
  | fault (p : Defect)
deriving DecidableEq

end ApiBindings.Yaml
