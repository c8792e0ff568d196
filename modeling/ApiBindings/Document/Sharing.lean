import ApiBindings.Document.Value

/-!
Writing into a document whose mappings are shared. A write to a labelled mapping is seen at
every place with that label; a mapping without label belongs to the nearest labelled one around
it and is written with it.
-/

namespace ApiBindings

namespace Value

mutual

def change (label : Nat) (f : Entries → Entries) : Value → Value
  | .scalar s => .scalar s
  | .list items => .list (changeItems label f items)
  | .map l es => if l = some label then .map l (f es) else .map l (changeEntries label f es)
  | .set ms => .set ms
  | .pair a b => .pair (change label f a) (change label f b)

def changeItems (label : Nat) (f : Entries → Entries) : List Value → List Value
  | [] => []
  | v :: vs => change label f v :: changeItems label f vs

def changeEntries (label : Nat) (f : Entries → Entries) :
    List (Scalar × Value) → List (Scalar × Value)
  | [] => []
  | (k, v) :: es => (k, change label f v) :: changeEntries label f es

end

end Value

namespace Entries

def adjust (es : Entries) (key : Scalar) (f : Value → Value) : Entries :=
  match es with
  | [] => []
  | (k, v) :: rest => if k.isKey key then (k, f v) :: rest else (k, v) :: adjust rest key f

/-- Changes the mapping at the end of a path of keys, and nothing if there is none. -/
def modifyAt (es : Entries) (path : List Scalar) (f : Entries → Entries) : Entries :=
  match path with
  | [] => f es
  | key :: rest => es.adjust key fun
    | .map l inner => .map l (modifyAt inner rest f)
    | v => v

/-- The last label on a path of keys, and the keys that follow it. -/
def lastLabel? (es : Entries) (path : List Scalar) : Option (Nat × List Scalar) :=
  match path with
  | [] => none
  | key :: rest =>
    match es.find? key with
    | some (.map l inner) =>
      match lastLabel? inner rest with
      | some found => some found
      | none => l.map fun label => (label, rest)
    | _ => none

/-- Changes the mapping at the end of a path of keys wherever it is shared. -/
def write (es : Entries) (path : List Scalar) (f : Entries → Entries) : Entries :=
  match es.lastLabel? path with
  | some (label, rest) => Value.changeEntries label (modifyAt · rest f) es
  | none => es.modifyAt path f

end Entries

end ApiBindings
