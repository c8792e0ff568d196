/-!
TypeScript type expressions as trees. Main statement: two expressions can be told apart, and
they are the same exactly when they are built alike.
-/

namespace ApiBindings

structure Field where
  name : String
  required : Bool
  description : Option String
deriving DecidableEq, Inhabited

inductive TypeExpr where
  | primitive (name : String)
  | named (name : String)
  | literals (tokens : List String)
  | array (item : TypeExpr)
  | tuple (item : TypeExpr) (length : Int)
  /-- An object with any keys and any values. -/
  | freeFormMap
  | shape (fields : List (Field × TypeExpr)) (index : Option TypeExpr)
  | union (members : List TypeExpr)
  | intersection (members : List TypeExpr)
  /-- The inner type with some of its fields made mandatory. -/
  | requiring (inner : TypeExpr) (keys : List String)
deriving Inhabited

namespace TypeExpr

mutual

def same : TypeExpr → TypeExpr → Bool
  | .primitive a, .primitive b => a == b
  | .named a, .named b => a == b
  | .literals a, .literals b => a == b
  | .array a, .array b => same a b
  | .tuple a m, .tuple b n => same a b && m == n
  | .freeFormMap, .freeFormMap => true
  | .shape fs i, .shape gs j => sameFields fs gs && sameIndex i j
  | .union as, .union bs => sameMembers as bs
  | .intersection as, .intersection bs => sameMembers as bs
  | .requiring a ks, .requiring b ls => same a b && ks == ls
  | _, _ => false

def sameMembers : List TypeExpr → List TypeExpr → Bool
  | [], [] => true
  | a :: as, b :: bs => same a b && sameMembers as bs
  | _, _ => false

def sameFields : List (Field × TypeExpr) → List (Field × TypeExpr) → Bool
  | [], [] => true
  | (f, a) :: fs, (g, b) :: gs => f == g && same a b && sameFields fs gs
  | _, _ => false

def sameIndex : Option TypeExpr → Option TypeExpr → Bool
  | none, none => true
  | some a, some b => same a b
  | _, _ => false

end

mutual

theorem same_iff : ∀ a b : TypeExpr, same a b = true ↔ a = b
  | .primitive a, b => by cases b <;> simp [same]
  | .named a, b => by cases b <;> simp [same]
  | .literals a, b => by cases b <;> simp [same]
  | .array a, b => by cases b <;> simp [same, same_iff a]
  | .tuple a m, b => by cases b <;> simp [same, same_iff a]
  | .freeFormMap, b => by cases b <;> simp [same]
  | .shape fs i, b => by cases b <;> simp [same, sameFields_iff fs, sameIndex_iff i]
  | .union as, b => by cases b <;> simp [same, sameMembers_iff as]
  | .intersection as, b => by cases b <;> simp [same, sameMembers_iff as]
  | .requiring a ks, b => by cases b <;> simp [same, same_iff a]

theorem sameMembers_iff : ∀ as bs : List TypeExpr, sameMembers as bs = true ↔ as = bs
  | [], bs => by cases bs <;> simp [sameMembers]
  | a :: as, bs => by cases bs <;> simp [sameMembers, same_iff a, sameMembers_iff as]

theorem sameFields_iff :
    ∀ fs gs : List (Field × TypeExpr), sameFields fs gs = true ↔ fs = gs
  | [], gs => by cases gs <;> simp [sameFields]
  | (f, a) :: fs, gs => by
    cases gs with
    | nil => simp [sameFields]
    | cons g gs =>
      obtain ⟨g, b⟩ := g
      simp [sameFields, same_iff a, sameFields_iff fs, and_assoc]

theorem sameIndex_iff : ∀ i j : Option TypeExpr, sameIndex i j = true ↔ i = j
  | none, j => by cases j <;> simp [sameIndex]
  | some a, j => by cases j <;> simp [sameIndex, same_iff a]

end

instance : DecidableEq TypeExpr := fun a b => decidable_of_iff _ (same_iff a b)

def any : TypeExpr := .primitive "any"
def null : TypeExpr := .primitive "null"
def void : TypeExpr := .primitive "void"
def unknown : TypeExpr := .primitive "unknown"
def number : TypeExpr := .primitive "number"
def string : TypeExpr := .primitive "string"
def boolean : TypeExpr := .primitive "boolean"

def emptyShape : TypeExpr := .shape [] none

def isShape : TypeExpr → Bool
  | .shape .. => true
  | _ => false

def isEmptyShape : TypeExpr → Bool
  | .shape [] none => true
  | _ => false

/-- Whether the expression needs parentheses under a postfix operator. -/
def isComposite : TypeExpr → Bool
  | .literals _ => true
  | .union _ => true
  | .intersection _ => true
  | _ => false

def isAlternatives : TypeExpr → Bool
  | .literals _ => true
  | .union _ => true
  | _ => false

end TypeExpr

end ApiBindings
