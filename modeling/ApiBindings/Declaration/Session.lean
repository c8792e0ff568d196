import ApiBindings.Document.Value
import ApiBindings.Log

/-!
What one run remembers: the names declared so far and where each was declared first, the
operation ids met so far, and the events told. All of it outlives a failed step.
-/

namespace ApiBindings

/-- The declared names in order, each with the place of its first declaration. -/
structure Registry where
  origins : List (String × String)

namespace Registry

def empty : Registry := ⟨[]⟩

def origin? (r : Registry) (name : String) : Option String := r.origins.lookup name

def holds (r : Registry) (name : String) : Bool := (r.origin? name).isSome

def clash (name origin earlier : String) : Event :=
  ⟨.warning, .components,
    "Имя " ++ name ++ " объявлено повторно (" ++ origin ++ ", ранее " ++ earlier ++ ")"⟩

def register (r : Registry) (name origin : String) : Registry × List Event :=
  match r.origin? name with
  | some earlier => (r, [clash name origin earlier])
  | none => (⟨r.origins ++ [(name, origin)]⟩, [])

end Registry

structure Session where
  registry : Registry
  operationIds : List Scalar
  log : Log

namespace Session

def start : Session := ⟨.empty, [], []⟩

end Session

abbrev Declaring := ExceptT Fault (StateM Session)

namespace Declaring

def telling {α : Type} (x : Telling α) : Declaring α := fun s =>
  let (result, log) := x.run s.log
  (result, { s with log := log })

def tell (event : Event) : Declaring Unit :=
  modify fun s => { s with log := s.log ++ [event] }

def register (name origin : String) : Declaring Unit :=
  modify fun s =>
    let (registry, events) := s.registry.register name origin
    { s with registry := registry, log := s.log ++ events }

end Declaring

end ApiBindings
