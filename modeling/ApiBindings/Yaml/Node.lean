import ApiBindings.Yaml.Scalar

/-!
Nodes of a YAML document: tagged scalars, sequences and mappings. A mapping holds its entries as
written and its entries after merging, if they can be merged. The label of a mapping is its own,
and an alias has the label of what it stands for.
-/

namespace ApiBindings.Yaml

inductive Node where
  | scalar (tag : Tag) (text : String)
  | sequence (tag : Tag) (items : List Node)
  | mapping (tag : Tag) (label : Nat) (written : List (Node × Node))
      (merged : Option (List (Node × Node)))
  | endless
deriving Inhabited

namespace Node

def tag : Node → Tag
  | .scalar tag _ => tag
  | .sequence tag _ => tag
  | .mapping tag .. => tag
  | .endless => .unknown

def merged? : Node → Option (List (Node × Node))
  | .mapping _ _ _ merged => merged
  | _ => none

/-- The entries that merging a value adds: those of a mapping, or of several mappings, of which
the last one comes first. -/
def mergedInto? : Node → Option (List (Node × Node))
  | .sequence _ items => do return (← items.mapM merged?).reverse.flatten
  | node => node.merged?

/-- A key as it stands among merged entries; the key for a default value is text there. -/
def asKey : Node → Node
  | .scalar .value text => .scalar .str text
  | node => node

def mergeEntries (entries : List (Node × Node)) : Option (List (Node × Node)) := do
  let (merges, own) := entries.partition fun e => e.1.tag == .merge
  let added ← merges.mapM fun e => e.2.mergedInto?
  return added.flatten ++ own.map fun e => (e.1.asKey, e.2)

def ofEntries (tag : Tag) (label : Nat) (entries : List (Node × Node)) : Node :=
  .mapping tag label entries (mergeEntries entries)

end Node

end ApiBindings.Yaml
