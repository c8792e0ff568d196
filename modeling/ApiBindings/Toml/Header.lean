import ApiBindings.Toml.Table

/-!
The headers of tables and of arrays of tables, and the way that they lead from the outermost
table to the one that is filled next.
-/

namespace ApiBindings.Toml

structure Header where
  names : List String
  isArray : Bool

def isClosedName (text : List Char) : Bool := text.length != 1 && text.head? == text.getLast?

def isBareNameChar (c : Char) : Bool := c.isAlphanum || c == '_' || c == '-'

/-- The names of a header from the pieces between its dots. A quoted name takes in pieces up to
the one that closes it; `begun` is what is read of it. -/
def headerNames (begun : Option (List Char)) : List (List Char) → Except Defect (List String)
  | [] => if begun.isSome then .error .malformed else .ok []
  | piece :: rest =>
    let raw := match begun with
      | some before => before ++ '.' :: piece
      | none => Text.trim piece
    let text := Text.trim raw
    if begun.isSome || (text.head?.map isQuote) == some true then
      if isClosedName text then (String.ofList (inner text) :: ·) <$> headerNames none rest
      else headerNames (some raw) rest
    else if !text.isEmpty && text.all isBareNameChar then
      (String.ofList text :: ·) <$> headerNames none rest
    else .error .malformed

def Header.of (line : List Char) : Except Defect Header := do
  let isArray := (line.drop 1).head? == some '['
  let (text, closing) := if isArray then (line.drop 2, [']', ']']) else (line.drop 1, [']'])
  if line.length = 1 then .error .malformed
  let splits := splitsUpTo closing text
  let pieces := Text.splitMost closing splits text
  if pieces.length < splits + 1 ∨ !(Text.trim (pieces.getLast?.getD [])).isEmpty then
    .error .malformed
  let names ← headerNames none (Text.splitOn ['.'] (Text.glue closing pieces.dropLast))
  return ⟨names, isArray⟩

inductive Step where
  | key (name : String)
  | last

def changeAt (change : Value → Except Defect (Value × Option Pending)) :
    List Step → Value → Except Defect (Value × Option Pending)
  | [], v => change v
  | .key name :: rest, .map label es =>
    match Entries.get? es name with
    | some inner => do
      let (inner, pending) ← changeAt change rest inner
      return (.map label (Entries.put es (.str name) inner), pending)
    | none => .error .malformed
  | .last :: rest, .list items =>
    match items.getLast? with
    | some item => do
      let (item, pending) ← changeAt change rest item
      return (.list (items.dropLast ++ [item]), pending)
    | none => .error .malformed
  | _, _ => .error .malformed

/-- The way to a table, in a value where the table is present. Tables that were made only to lead
to others are `implicit`, and may get a header of their own. -/
structure Way where
  value : Value
  steps : List Step
  implicit : List String

def freshTable (isArray : Bool) : Value :=
  if isArray then .list [.ofEntries []] else .ofEntries []

/-- What a header makes of a value that its last name has already. -/
def reopened (isArray : Bool) (implicit : List String) (name : String) (v : Value) :
    Except Defect (Value × List String) :=
  if implicit.contains name then
    if isArray then .error .malformed else .ok (v, implicit.erase name)
  else if isArray then
    match v with
    | .list items => .ok (.list (items ++ [.ofEntries []]), implicit)
    | _ => .error (.misuse .noSuchOperation)
  else .error .malformed

def inLast (go : Value → Except Defect Way) : Value → Except Defect Way
  | .list items =>
    match items.getLast? with
    | some item => do
      let way ← go item
      return { way with
        value := .list (items.dropLast ++ [way.value])
        steps := .last :: way.steps }
    | none => .error (.misuse .missingItem)
  | .map label es => go (.map label es)
  | .scalar (.str s) => if s = "" then .error (.misuse .missingItem) else go (.str s)
  | _ => .error (.misuse .wrongKind)

def inEntry (go : Value → Except Defect Way) (isArray : Bool) (label : Option Nat) (es : Entries)
    (name : String) (child : Value) : Except Defect Way := do
  let way ← if isArray then inLast go child else go child
  return { way with
    value := .map label (es.put (.str name) way.value)
    steps := .key name :: way.steps }

def childOf (isArray isLast : Bool) (implicit : List String) (es : Entries) (name : String) :
    Except Defect (Value × List String) :=
  match es.get? name with
  | some child => if isLast then reopened isArray implicit name child else .ok (child, implicit)
  | none =>
    .ok (freshTable (isLast && isArray), if isLast then implicit else implicit ++ [name])

def follow (isArray : Bool) : List String → List String → Value → Except Defect Way
  | [], implicit, v => .ok ⟨v, [], implicit⟩
  | name :: rest, implicit, v =>
    if name = "" then .error .malformed
    else
      match v with
      | .map label es => do
        let (child, implicit) ← childOf isArray rest.isEmpty implicit es name
        inEntry (follow isArray rest implicit) isArray label es name child
      | .list items =>
        match items.getLast? with
        | some (.map label es) => do
          let child := (Entries.get? es name).getD (freshTable (rest.isEmpty && isArray))
          let way ← inEntry (follow isArray rest implicit) isArray label es name child
          return { way with
            value := .list (items.dropLast ++ [way.value])
            steps := .last :: way.steps }
        | some _ => .error (.misuse .wrongKind)
        | none => .error (.misuse .missingItem)
      | .scalar (.str s) => .error (.misuse (if s = "" then .missingItem else .wrongKind))
      | _ => .error (.misuse .wrongKind)

end ApiBindings.Toml
