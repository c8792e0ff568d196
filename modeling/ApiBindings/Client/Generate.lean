import ApiBindings.Client.Header
import ApiBindings.Operation.Bind
import ApiBindings.Schema.Discriminator

/-!
Generating the bindings of a document. Discriminators are followed first, then the components
are declared, then the operations are bound in the order of the document; the head of the file
holds what the code below it uses.
-/

namespace ApiBindings.Client

open Operation (Options Bound Metadata)
open Declaration (Block)

def codeBlocks (components : List Block) (bound : List Bound) : List String :=
  (components.map Block.text).filter (· != "") ++ bound.map Bound.text

structure Output where
  header : String
  components : List Block
  bound : List Bound
  needs : Needs

namespace Output

def blocks (o : Output) : List String := codeBlocks o.components o.bound

def operations (o : Output) : List Metadata := o.bound.map (·.metadata)

def text (o : Output) : String := o.header ++ Text.joinWith "" o.blocks

def exports (o : Output) : List String :=
  o.components.flatMap Block.names ++ o.bound.flatMap Bound.names

end Output

def narrowedComponents (document : Entries) : Declaring Entries := do
  let declared := document.get "components"
  let components ← (if declared.isFilled then declared.toEntries else .ok [] : Except Fault Entries)
  let schemas := components.get "schemas"
  if schemas.isFilled then
    let narrowed ← Declaring.telling (Schema.followDiscriminators schemas)
    return components.put (.str "schemas") (.ofEntries narrowed)
  else return components

def bindPath (components : Value) (options : Options) (route : Scalar) (path : Value) :
    Declaring (List Bound) := do
  let es ← path.entriesOrNone
  let operations := es.filter fun e => Operation.verbs.any fun verb => e.1.equals (.str verb)
  operations.mapM fun (verb, operation) => do
    Operation.bind components options
      ⟨← operation.entriesOrNone, verb.text, route, es.get "parameters"⟩

def generateIn (document : Value) (options : Options) : Declaring Output := do
  let document ← document.entries
  let components ← narrowedComponents document
  let shared := Value.ofEntries components
  let declared ← Declaration.componentBlocks shared
  let paths ← (document.get "paths").entriesOrNone
  let bound ← paths.mapM fun (route, path) => bindPath shared options route path
  let bound := bound.flatten
  let blocks := codeBlocks declared bound
  let mode := options.encodingMode.getD ""
  let needs := Needs.of (Text.joinWith "" blocks) mode
  Declaring.tell ⟨.info, .client,
    "Сгенерировано " ++ Text.ofNat bound.length ++ " операций, " ++ Text.ofNat blocks.length
      ++ " блоков"⟩
  return ⟨header needs (options.customImport.getD "") mode, declared, bound, needs⟩

def generate (document : Value) (options : Options) : Except Fault Output × Log :=
  let (result, session) := (generateIn document options).run.run .start
  (result, session.log)

end ApiBindings.Client
