import ApiBindings.Yaml.Node
import ApiBindings.Yaml.Token

/-!
Nodes from tokens. Anchors name the nodes of one document; an anchor is named once, and an alias
may stand only behind it. A text holds at most one document.
-/

namespace ApiBindings.Yaml

/-- What the nodes read so far have named. An anchor whose node is not complete has none. -/
structure Names where
  handles : List (String × String)
  anchors : List (String × Option Node)
  nextLabel : Nat

namespace Names

def defaultHandles : List (String × String) := [("!", "!"), ("!!", standardRoot)]

def start (handles : List (String × String)) : Names := ⟨handles ++ defaultHandles, [], 0⟩

def announce (names : Names) (anchor : Option String) : Except Defect Names :=
  match anchor with
  | none => .ok names
  | some a =>
    if (names.anchors.lookup a).isSome then .error .malformed
    else .ok { names with anchors := (a, none) :: names.anchors }

def complete (names : Names) (anchor : Option String) (node : Node) : Names :=
  match anchor with
  | none => names
  | some a =>
    { names with anchors := names.anchors.map fun e => if e.1 = a then (a, some node) else e }

def resolve (names : Names) (anchor : String) : Except Defect Node :=
  match names.anchors.lookup anchor with
  | none => .error .malformed
  | some none => .ok .endless
  | some (some node) => .ok node

end Names

structure Composed (α : Type) (ts : List Token) where
  value : α
  names : Names
  rest : List Token
  le : rest.length ≤ ts.length

/-- No token is usable where the text cannot be read on. -/
def usable (ts : List Token) : Except Defect Unit :=
  match ts with
  | .fault p :: _ => .error p
  | _ => .ok ()

def unexpected {α : Type} (ts : List Token) : Except Defect α := do
  usable ts
  .error .malformed

structure Properties where
  anchor : Option String
  tag : Option String

def fullTag (names : Names) (handle : Option String) (suffix : String) : Except Defect String :=
  match handle with
  | none => .ok suffix
  | some h =>
    match names.handles.lookup h with
    | some root => .ok (root ++ suffix)
    | none => .error .malformed

def readProperties (names : Names) (ts : List Token) :
    Except Defect (Composed Properties ts) :=
  match ts with
  | .anchor a :: .tag handle suffix :: rest => do
    let tag ← fullTag names handle suffix
    return ⟨⟨some a, some tag⟩, names, rest, by simp only [List.length_cons]; omega⟩
  | .tag handle suffix :: .anchor a :: rest => do
    let tag ← fullTag names handle suffix
    return ⟨⟨some a, some tag⟩, names, rest, by simp only [List.length_cons]; omega⟩
  | .anchor a :: rest => do
    usable rest
    return ⟨⟨some a, none⟩, names, rest, by simp⟩
  | .tag handle suffix :: rest => do
    usable rest
    let tag ← fullTag names handle suffix
    return ⟨⟨none, some tag⟩, names, rest, by simp⟩
  | ts => .ok ⟨⟨none, none⟩, names, ts, Nat.le_refl _⟩

namespace Properties

def ownTag? (p : Properties) : Option Tag :=
  match p.tag with
  | none => none
  | some "!" => none
  | some name => some (.ofName name)

def isEmpty (p : Properties) : Bool := p.anchor.isNone && p.tag.isNone

/-- A scalar; without a tag of its own it has the tag of its form, if it is plain or if its tag is
left open explicitly. -/
def scalar (p : Properties) (plain : Bool) (text : String) : Node :=
  match p.ownTag? with
  | some tag => .scalar tag text
  | none => .scalar (if plain || p.tag.isSome then .ofPlain text.toList else .str) text

def emptyScalar (p : Properties) : Node := p.scalar true ""

end Properties

/-- Where a node stands: as an element or alone, as a part of a block mapping, or in brackets. -/
inductive Place where
  | item
  | entry
  | flow
deriving DecidableEq

def Place.isVacant (place : Place) (ts : List Token) : Bool :=
  match place, ts with
  | .item, .blockEntry :: _ => true
  | .flow, .flowEntry :: _ => true
  | .flow, .flowSequenceEnd :: _ => true
  | .flow, .flowMappingEnd :: _ => true
  | .flow, .value :: _ => true
  | .flow, _ => false
  | _, .key :: _ => true
  | _, .value :: _ => true
  | _, .blockEnd :: _ => true
  | _, _ => false

def vacant : Node := .scalar .null ""

def Composed.named {α : Type} {ts us : List Token} (parts : Composed α us) (p : Properties)
    (node : Node) (h : us.length ≤ ts.length) : Composed Node ts :=
  ⟨node, parts.names.complete p.anchor node, parts.rest, Nat.le_trans parts.le h⟩

def Composed.sequence {ts us : List Token} (items : Composed (List Node) us) (p : Properties)
    (h : us.length ≤ ts.length) : Composed Node ts :=
  items.named p (.sequence (p.ownTag?.getD .seq) items.value) h

def Composed.labelled {α : Type} {ts : List Token} (x : Composed α ts) : Composed α ts :=
  { x with names := { x.names with nextLabel := x.names.nextLabel + 1 } }

def Composed.mapping {ts us : List Token} (entries : Composed (List (Node × Node)) us)
    (p : Properties) (h : us.length ≤ ts.length) : Composed Node ts :=
  entries.labelled.named p
    (.ofEntries (p.ownTag?.getD .map) entries.names.nextLabel entries.value) h

def Composed.single {ts us : List Token} (pair : Composed (Node × Node) us)
    (h : us.length ≤ ts.length) : Composed Node ts :=
  pair.labelled.named ⟨none, none⟩ (.ofEntries .map pair.names.nextLabel [pair.value]) h

/-- What follows the comma between two parts in brackets; before the first part is none. -/
def behindComma (first : Bool) (ts : List Token) :
    Except Defect { us : List Token //
      us.length ≤ ts.length ∧ (first = false → us.length < ts.length) } :=
  if h : first then .ok ⟨ts, Nat.le_refl _, by simp [h]⟩
  else
    match ts with
    | .flowEntry :: rest => .ok ⟨rest, by simp, by simp⟩
    | ts => unexpected ts

mutual

def readNode (place : Place) (names : Names) (ts : List Token) :
    Except Defect (Composed Node ts) :=
  match ts with
  | .alias_ name :: rest => do
    let node ← names.resolve name
    return ⟨node, names, rest, by simp⟩
  | ts => do
    let p ← readProperties names ts
    let names ← names.announce p.value.anchor
    have fits := p.le
    match h : p.rest with
    | .scalar plain text :: rest =>
      let scalar : Composed Unit rest := ⟨(), names, rest, Nat.le_refl _⟩
      return scalar.named p.value (p.value.scalar plain text) (by grind)
    | .flowSequenceStart :: rest =>
      return (← readFlowItems true names rest).sequence p.value (by grind)
    | .flowMappingStart :: rest =>
      return (← readFlowEntries true names rest).mapping p.value (by grind)
    | .blockSequenceStart :: rest =>
      if place = .flow then .error .malformed
      else return (← readItems true names rest).sequence p.value (by grind)
    | .blockMappingStart :: rest =>
      if place = .flow then .error .malformed
      else return (← readEntries names rest).mapping p.value (by grind)
    | us =>
      if place = .entry ∧ us.head? = some .blockEntry then
        return (← readItems false names us).sequence p.value (by grind)
      else if p.value.isEmpty then unexpected us
      else
        let scalar : Composed Unit us := ⟨(), names, us, Nat.le_refl _⟩
        return scalar.named p.value p.value.emptyScalar (by grind)
termination_by (ts.length, 1)
decreasing_by
  all_goals
    simp only [Prod.lex_def]
    grind

def readSlot (place : Place) (names : Names) (ts : List Token) :
    Except Defect (Composed Node ts) := do
  usable ts
  if place.isVacant ts then return ⟨vacant, names, ts, Nat.le_refl _⟩
  else readNode place names ts
termination_by (ts.length, 2)
decreasing_by
  exact Prod.Lex.right _ (by omega)

/-- The elements of a block sequence. One that is not `closed` ends at the first other token. -/
def readItems (closed : Bool) (names : Names) (ts : List Token) :
    Except Defect (Composed (List Node) ts) :=
  match ts with
  | .blockEntry :: rest => do
    let item ← readSlot .item names rest
    let more ← readItems closed item.names item.rest
    return ⟨item.value :: more.value, more.names, more.rest, by
      have := item.le; have := more.le; simp only [List.length_cons]; omega⟩
  | .blockEnd :: rest =>
    if closed then .ok ⟨[], names, rest, by simp⟩
    else .ok ⟨[], names, .blockEnd :: rest, Nat.le_refl _⟩
  | ts => do
    if closed then unexpected ts
    else
      usable ts
      return ⟨[], names, ts, Nat.le_refl _⟩
termination_by (ts.length, 0)
decreasing_by
  · simp only [Prod.lex_def, List.length_cons]; omega
  · have := item.le; simp only [Prod.lex_def, List.length_cons]; omega

/-- A key and its value, each of which may be missing, after the start of the key. -/
def readPair (place : Place) (names : Names) (ts : List Token) :
    Except Defect (Composed (Node × Node) ts) := do
  let key ← readSlot place names ts
  usable key.rest
  have fits := key.le
  match h : key.rest with
  | .value :: rest =>
    let value ← readSlot place key.names rest
    return ⟨(key.value, value.value), value.names, value.rest, by
      have := value.le; simp only [h, List.length_cons] at *; omega⟩
  | _ => return ⟨(key.value, vacant), key.names, key.rest, key.le⟩
termination_by (ts.length, 3)
decreasing_by
  all_goals
    simp only [Prod.lex_def]
    grind

def readEntries (names : Names) (ts : List Token) :
    Except Defect (Composed (List (Node × Node)) ts) :=
  match ts with
  | .key :: rest => do
    let pair ← readPair .entry names rest
    let more ← readEntries pair.names pair.rest
    return ⟨pair.value :: more.value, more.names, more.rest, by
      have := pair.le; have := more.le; simp only [List.length_cons]; omega⟩
  | .blockEnd :: rest => .ok ⟨[], names, rest, by simp⟩
  | ts => unexpected ts
termination_by (ts.length, 0)
decreasing_by
  · simp only [Prod.lex_def, List.length_cons]; omega
  · have := pair.le; simp only [Prod.lex_def, List.length_cons]; omega

/-- The elements of a sequence in brackets up to its end. A pair among them is a mapping. -/
def readFlowItems (first : Bool) (names : Names) (ts : List Token) :
    Except Defect (Composed (List Node) ts) :=
  match ts with
  | .flowSequenceEnd :: rest => .ok ⟨[], names, rest, by simp⟩
  | ts => do
    let ⟨us, fits, shorter⟩ ← behindComma first ts
    match h : us with
    | .flowSequenceEnd :: rest => return ⟨[], names, rest, by grind⟩
    | .key :: rest =>
      let item := (← readPair .flow names rest).single (Nat.le_refl _)
      have := item.le
      let more ← readFlowItems false item.names item.rest
      return ⟨item.value :: more.value, more.names, more.rest, by have := more.le; grind⟩
    | us =>
      let item ← readNode .flow names us
      have := item.le
      let more ← readFlowItems false item.names item.rest
      return ⟨item.value :: more.value, more.names, more.rest, by have := more.le; grind⟩
termination_by (ts.length, if first then 5 else 4)
decreasing_by
  all_goals
    simp only [Prod.lex_def]
    grind

/-- The entries of a mapping in braces up to its end. A node alone is a key without value. -/
def readFlowEntries (first : Bool) (names : Names) (ts : List Token) :
    Except Defect (Composed (List (Node × Node)) ts) :=
  match ts with
  | .flowMappingEnd :: rest => .ok ⟨[], names, rest, by simp⟩
  | ts => do
    let ⟨us, fits, shorter⟩ ← behindComma first ts
    match h : us with
    | .flowMappingEnd :: rest => return ⟨[], names, rest, by grind⟩
    | .key :: rest =>
      let pair ← readPair .flow names rest
      have := pair.le
      let more ← readFlowEntries false pair.names pair.rest
      return ⟨pair.value :: more.value, more.names, more.rest, by have := more.le; grind⟩
    | us =>
      let key ← readNode .flow names us
      have := key.le
      let more ← readFlowEntries false key.names key.rest
      return ⟨(key.value, vacant) :: more.value, more.names, more.rest, by have := more.le; grind⟩
termination_by (ts.length, if first then 5 else 4)
decreasing_by
  all_goals
    simp only [Prod.lex_def]
    grind

end

end ApiBindings.Yaml
