import ApiBindings.TypeExpr.Basic
import Mathlib.Data.List.Basic

/-!
Types as a reader sees them. Main statement: the parts of a flattened join are the parts of its
flattened members.
-/

namespace ApiBindings.TypeText

inductive Connective where
  | union
  | intersection
deriving DecidableEq

inductive Key where
  | field (name : String) (required : Bool)
  | index
deriving DecidableEq

inductive TypeTree where
  | name (s : String)
  | literal (s : String)
  | array (item : TypeTree)
  | tuple (items : List TypeTree)
  | join (c : Connective) (members : List TypeTree)
  | braces (members : List (Key × TypeTree))
  | requiring (inner : TypeTree) (keys : List String)

namespace TypeTree

def isJoin (c : Connective) : TypeTree → Bool
  | .join d _ => c == d
  | _ => false

def parts (c : Connective) : TypeTree → List TypeTree
  | .join d us => if c = d then us else [.join d us]
  | u => [u]

def joined (c : Connective) : List TypeTree → TypeTree
  | [u] => u
  | us => .join c us

mutual

/-- No join directly inside a join by the same connective, and none of one member. -/
def flatten : TypeTree → TypeTree
  | .name s => .name s
  | .literal s => .literal s
  | .array u => .array (flatten u)
  | .tuple us => .tuple (flattenAll us)
  | .join c us => joined c (flattenParts c us)
  | .braces ms => .braces (flattenMembers ms)
  | .requiring u ks => .requiring (flatten u) ks

def flattenAll : List TypeTree → List TypeTree
  | [] => []
  | u :: us => flatten u :: flattenAll us

def flattenParts (c : Connective) : List TypeTree → List TypeTree
  | [] => []
  | u :: us => parts c (flatten u) ++ flattenParts c us

def flattenMembers : List (Key × TypeTree) → List (Key × TypeTree)
  | [] => []
  | (k, u) :: ms => (k, flatten u) :: flattenMembers ms

end

theorem flattenAll_eq_map (us : List TypeTree) : flattenAll us = us.map flatten := by
  induction us with
  | nil => rfl
  | cons u us ih => rw [flattenAll, ih, List.map_cons]

theorem flattenParts_eq_flatMap (c : Connective) (us : List TypeTree) :
    flattenParts c us = us.flatMap fun u => parts c (flatten u) := by
  induction us with
  | nil => rfl
  | cons u us ih => rw [flattenParts, ih, List.flatMap_cons]

theorem flattenParts_append (c : Connective) (us vs : List TypeTree) :
    flattenParts c (us ++ vs) = flattenParts c us ++ flattenParts c vs := by
  simp only [flattenParts_eq_flatMap, List.flatMap_append]

inductive Flat : TypeTree → Prop where
  | join (c : Connective) (us : List TypeTree) (length : us.length ≠ 1)
      (members : ∀ u ∈ us, Flat u) (apart : ∀ u ∈ us, u.isJoin c = false) : Flat (.join c us)
  | other (u : TypeTree) (apart : ∀ c, u.isJoin c = false) : Flat u

theorem parts_of_not_isJoin {c : Connective} {u : TypeTree} (h : u.isJoin c = false) :
    parts c u = [u] := by
  cases u with
  | join d us =>
    have hne : c ≠ d := by simpa [isJoin] using h
    rw [parts, if_neg hne]
  | _ => rfl

theorem Flat.mem_parts {c : Connective} {u v : TypeTree} (hu : Flat u) (hv : v ∈ parts c u) :
    Flat v ∧ v.isJoin c = false := by
  by_cases hj : u.isJoin c = true
  · cases hu with
    | join d us hl hm ha =>
      have hd : c = d := by simpa [isJoin] using hj
      subst hd
      rw [parts, if_pos rfl] at hv
      exact ⟨hm v hv, ha v hv⟩
    | other u ha => simp [ha c] at hj
  · have hj : u.isJoin c = false := by simpa using hj
    rw [parts_of_not_isJoin hj, List.mem_singleton] at hv
    subst hv
    exact ⟨hu, hj⟩

theorem flat_joined {c : Connective} {us : List TypeTree}
    (h : ∀ u ∈ us, Flat u ∧ u.isJoin c = false) : Flat (joined c us) := by
  fun_cases joined c us with
  | case1 u => exact (h u (by simp)).1
  | case2 us hne =>
    refine .join c us ?_ (fun u hu => (h u hu).1) fun u hu => (h u hu).2
    intro hl
    obtain ⟨u, rfl⟩ := List.length_eq_one_iff.mp hl
    exact hne u rfl

mutual

theorem flat_flatten : ∀ u : TypeTree, Flat (flatten u)
  | .name _ | .literal _ | .array _ | .tuple _ | .braces _ | .requiring _ _ =>
    .other _ fun _ => rfl
  | .join c us => flat_joined (flat_flattenParts c us)

theorem flat_flattenParts (c : Connective) :
    ∀ us : List TypeTree, ∀ v ∈ flattenParts c us, Flat v ∧ v.isJoin c = false
  | [], v, hv => by cases hv
  | u :: us, v, hv => by
    rw [flattenParts, List.mem_append] at hv
    rcases hv with hv | hv
    · exact (flat_flatten u).mem_parts hv
    · exact flat_flattenParts c us v hv

end

theorem parts_joined {c : Connective} {us : List TypeTree} (h : ∀ u ∈ us, u.isJoin c = false) :
    parts c (joined c us) = us := by
  fun_cases joined c us with
  | case1 u => exact parts_of_not_isJoin (h u (by simp))
  | case2 us hne => rw [parts, if_pos rfl]

theorem joined_parts {c : Connective} {u : TypeTree} (h : Flat u) :
    joined c (parts c u) = u := by
  by_cases hj : u.isJoin c = true
  · cases h with
    | join d us hl hm ha =>
      have hd : c = d := by simpa [isJoin] using hj
      subst hd
      rw [parts, if_pos rfl, joined]
      rintro v rfl
      exact hl rfl
    | other u ha => simp [ha c] at hj
  · rw [parts_of_not_isJoin (by simpa using hj), joined]

theorem parts_flatten_join (c : Connective) (us : List TypeTree) :
    parts c (flatten (.join c us)) = us.flatMap fun u => parts c (flatten u) := by
  rw [flatten, parts_joined fun u hu => (flat_flattenParts c us u hu).2, flattenParts_eq_flatMap]

theorem flatten_joined (c : Connective) (us : List TypeTree) :
    flatten (joined c us) = flatten (.join c us) := by
  fun_cases joined c us with
  | case1 u => simp [flatten, flattenParts, joined_parts (flat_flatten u)]
  | case2 us hne => rfl

def isValueWord (s : String) : Bool := s == "null" || s == "true" || s == "false"

def ofWord (s : String) : TypeTree := if isValueWord s then .literal s else .name s

mutual

def ofExpr : TypeExpr → TypeTree
  | .primitive s => ofWord s
  | .named s => ofWord s
  | .literals tokens => .join .union (tokens.map .literal)
  | .array item => .array (ofExpr item)
  | .tuple item length => .tuple (List.replicate length.toNat (ofExpr item))
  | .freeFormMap => .braces [(.index, .name "any")]
  | .shape fields index => .braces (ofFields fields ++ ofIndex index)
  | .union members => .join .union (ofAll members)
  | .intersection members => .join .intersection (ofAll members)
  | .requiring inner keys => .requiring (ofExpr inner) keys

def ofAll : List TypeExpr → List TypeTree
  | [] => []
  | t :: ts => ofExpr t :: ofAll ts

def ofFields : List (Field × TypeExpr) → List (Key × TypeTree)
  | [] => []
  | (f, t) :: rest => (.field f.name f.required, ofExpr t) :: ofFields rest

def ofIndex : Option TypeExpr → List (Key × TypeTree)
  | none => []
  | some t => [(.index, ofExpr t)]

end

theorem ofAll_eq_map (ts : List TypeExpr) : ofAll ts = ts.map ofExpr := by
  induction ts with
  | nil => rfl
  | cons t ts ih => rw [ofAll, ih, List.map_cons]

end TypeTree

end ApiBindings.TypeText
