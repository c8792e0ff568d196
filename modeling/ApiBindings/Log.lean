import ApiBindings.Fault

/-!
What a run tells about its progress, and computations that tell it. The events of a computation
that fails are kept.
-/

namespace ApiBindings

inductive Level where
  | debug
  | info
  | warning
  | error
deriving DecidableEq

inductive Topic where
  | document
  | lint
  | discriminators
  | components
  | operations
  | client
deriving DecidableEq

structure Event where
  level : Level
  topic : Topic
  text : String
deriving DecidableEq

def Level.text : Level → String
  | .debug => "DEBUG"
  | .info => "INFO"
  | .warning => "WARNING"
  | .error => "ERROR"

def Level.isImportant : Level → Bool
  | .warning => true
  | .error => true
  | _ => false

/-- The name under which events on a topic are told. -/
def Topic.logger : Topic → String
  | .document => "openapi_tsgen.internal.parser.openapi"
  | .lint => "openapi_tsgen.internal.parser.validator"
  | .discriminators => "openapi_tsgen.internal.types.discriminator"
  | .components => "openapi_tsgen.internal.generator.components"
  | .operations => "openapi_tsgen.internal.generator.operation"
  | .client => "openapi_tsgen.internal.generator.client_generator"

def Event.line (e : Event) : String := e.level.text ++ " " ++ e.topic.logger ++ ": " ++ e.text

abbrev Log := List Event

abbrev Telling := ExceptT Fault (StateM Log)

namespace Telling

def tell (event : Event) : Telling Unit := modify (· ++ [event])

def tellAll (events : List Event) : Telling Unit := modify (· ++ events)

end Telling

end ApiBindings
