import ApiBindings.Schema.Reference
import ApiBindings.Document.Display
import ApiBindings.Log

/-!
The parameters of an operation. References to shared parameters are followed, and a parameter of
the operation takes the place of one of its path with the same name and position.
-/

namespace ApiBindings.Operation

structure Parameter where
  name : Scalar
  position : Scalar
  entries : Entries

namespace Parameter

def isSameAs (p q : Parameter) : Bool := p.name.isKey q.name && p.position.isKey q.position

def isIn (p : Parameter) (position : String) : Bool := p.position.equals (.str position)

def hasName (p : Parameter) (name : String) : Bool := p.name.equals (.str name)

def ofEntries (es : Entries) : Except Fault Parameter := do
  return ⟨← (es.get "name").expectKey, ← (es.get "in").expectKey, es⟩

end Parameter

/-- The parameter that a list item stands for: a shared one if it is a reference, itself if it is
a mapping, none otherwise. -/
def lookUpParameter (components : Value) (item : Value) : Telling (Option Value) :=
  match item with
  | .map _ es =>
    match Schema.reference? es with
    | none => pure (some item)
    | some ref => do
      let ref ← ref.expectText
      match Text.dropStart? Schema.parametersRoot ref with
      | none => throw (.because (.unsupportedReference ref))
      | some path =>
        let shared ← ((← components.entriesOrNone).get "parameters").entriesOrNone
        match shared.get (Pointer.unescape path) with
        | .scalar .null =>
          Telling.tell ⟨.warning, .operations,
            "Параметр " ++ ref ++ " не найден в components/parameters"⟩
          return none
        -- a shared parameter is not followed further if it is a reference itself
        | found => return some found
  | _ => pure none

def mergeParameter (p : Parameter) : List Parameter → List Parameter
  | [] => [p]
  | q :: qs => if q.isSameAs p then p :: qs else q :: mergeParameter p qs

def parameterItems (v : Value) : Except Fault (List Value) :=
  if v.isFilled then v.elements else .ok []

/-- The parameters of a path, overridden and extended by those of an operation. -/
def mergeParameters (components : Value) (ofRoute ofOperation : Value) :
    Telling (List Parameter) := do
  let items := (← parameterItems ofRoute) ++ (← parameterItems ofOperation)
  items.foldlM (fun merged item => do
    match ← lookUpParameter components item with
    | none => return merged
    | some found => return mergeParameter (← Parameter.ofEntries (← found.entries)) merged) []

end ApiBindings.Operation
