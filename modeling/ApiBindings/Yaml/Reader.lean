import ApiBindings.Yaml.Node.Document

/-!
Values of YAML documents. Collections are filled level by level, so that of two faults the one
nearer to the root is reported, and of faults at one level the first.
-/

namespace ApiBindings.Yaml

/-- A result, or the fault with the least level. -/
abbrev Filled (α : Type) := Except (Nat × Defect) α

namespace Filled

def fault {α : Type} (level : Nat) (p : Defect) : Filled α := .error (level, p)

def both {α β : Type} (x : Filled α) (y : Filled β) : Filled (α × β) :=
  match x, y with
  | .ok a, .ok b => .ok (a, b)
  | .error p, .ok _ => .error p
  | .ok _, .error q => .error q
  | .error p, .error q => .error (if q.1 < p.1 then q else p)

def ofScalar (level : Nat) (x : Except Defect Scalar) : Filled Scalar :=
  match x with
  | .ok s => .ok s
  | .error p => fault level p

end Filled

def bottom : Nat := 1000000000

mutual

/-- The text of a node with a tag of scalars: its own, or that of a mapping under the key for a
default value. -/
def scalarText? : Node → Option String
  | .scalar _ text => some text
  | .mapping _ _ entries _ => defaultText? entries
  | _ => none

def defaultText? : List (Node × Node) → Option String
  | [] => none
  | (key, value) :: rest => if key.tag = .value then scalarText? value else defaultText? rest

end

def isCollection : Tag → Bool
  | .seq => true
  | .map => true
  | .set => true
  | .orderedPairs => true
  | _ => false

def scalarOf (level : Nat) (node : Node) : Filled Scalar :=
  match scalarText? node with
  | some text => .ofScalar level (readScalar node.tag text)
  | none => .fault level .malformed

def keyOf (level : Nat) (node : Node) : Filled Scalar :=
  if isCollection node.tag then .fault level .malformed else scalarOf level node

mutual

def valueOf (level : Nat) : Node → Filled Value
  | .endless => .fault bottom (.misuse .endlessDocument)
  | .scalar tag text =>
    if isCollection tag then .fault (level + 1) .malformed
    else Value.scalar <$> scalarOf level (.scalar tag text)
  | .sequence tag items =>
    match tag with
    | .seq => Value.list <$> valuesOf (level + 1) items
    | .orderedPairs => Value.list <$> pairsOf (level + 1) items
    | .map => .fault (level + 1) .malformed
    | .set => .fault (level + 1) .malformed
    | _ => .fault level .malformed
  | .mapping tag label written (some merged) =>
    match tag with
    | .map =>
      (fun es => Value.map (some label) (Entries.ofList es)) <$> entriesOf (level + 1) merged
    | .set =>
      (fun es => Value.set ((Entries.ofList es).map (·.1))) <$> entriesOf (level + 1) merged
    | .seq => .fault (level + 1) .malformed
    | .orderedPairs => .fault (level + 1) .malformed
    | tag => Value.scalar <$> scalarOf level (.mapping tag label written (some merged))
  | .mapping tag label written none =>
    if isCollection tag then .fault (level + 1) .malformed
    else Value.scalar <$> scalarOf level (.mapping tag label written none)

def valuesOf (level : Nat) : List Node → Filled (List Value)
  | [] => .ok []
  | item :: rest =>
    (fun (v, vs) => v :: vs) <$> Filled.both (valueOf level item) (valuesOf level rest)

def entriesOf (level : Nat) : List (Node × Node) → Filled (List (Scalar × Value))
  | [] => .ok []
  | (key, value) :: rest =>
    (fun (k, v, es) => (k, v) :: es) <$>
      Filled.both (keyOf level key) (Filled.both (valueOf level value) (entriesOf level rest))

def pairsOf (level : Nat) : List Node → Filled (List Value)
  | [] => .ok []
  | item :: rest =>
    match item with
    | .mapping _ _ [(key, value)] _ =>
      (fun (k, v, vs) => Value.pair k v :: vs) <$>
        Filled.both (valueOf level key) (Filled.both (valueOf level value) (pairsOf level rest))
    | _ => .fault level .malformed

end

/-- The value of a text; a text without a document is null. -/
def read (text : List Char) : Except Defect Value := do
  match ← readDocument (tokensOf text) with
  | none => return .null
  | some root =>
    match valueOf 0 root with
    | .ok v => return v
    | .error (_, p) => .error p

end ApiBindings.Yaml
