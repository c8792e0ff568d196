import ApiBindings.Document.Value
import ApiBindings.Fault

/-!
The order of scalars. Numbers of all kinds compare by value, texts by their characters; scalars
of different kinds have no order, and neither has null.
-/

namespace ApiBindings

def textBelow : List Char → List Char → Bool
  | _, [] => false
  | [], _ :: _ => true
  | a :: as, b :: bs => Text.codePoint a < Text.codePoint b || (a == b && textBelow as bs)

namespace DateTime

/-- Whether a point in time comes before another; only points that both have an offset, or both
have none, are comparable. -/
def before? (a b : DateTime) : Option Bool :=
  match a.offset, b.offset with
  | none, none => some (a.clock < b.clock)
  | some x, some y => some (a.clock - x * 1000000 < b.clock - y * 1000000)
  | _, _ => none

end DateTime

namespace Scalar

def number? : Scalar → Option Binary64
  | .float x => some x
  | _ => none

/-- Whether a number is below another one; integers are compared exactly. -/
def numberBelow? (a b : Scalar) : Option Bool :=
  match a.integer?, b.integer? with
  | some m, some n => some (m < n)
  | some m, none => b.number?.map fun y => (Binary64.ofInt m).below y
  | none, some n => a.number?.map fun x => x.below (Binary64.ofInt n)
  | none, none =>
    match a.number?, b.number? with
    | some x, some y => some (x.below y)
    | _, _ => none

def below? (a b : Scalar) : Option Bool :=
  match a, b with
  | .str s, .str t => some (textBelow s.toList t.toList)
  | .bytes s, .bytes t =>
    some (textBelow (s.map fun b => Char.ofNat b.toNat) (t.map fun b => Char.ofNat b.toNat))
  | .date d, .date e => some (d.ordinal < e.ordinal)
  | .dateTime t, .dateTime u => t.before? u
  | a, b => numberBelow? a b

/-- Puts a scalar before the first one that it is below. -/
def insertSorted (x : Scalar) : List Scalar → Option (List Scalar)
  | [] => some [x]
  | y :: ys => do
    if ← x.below? y then return x :: y :: ys
    else return y :: (← insertSorted x ys)

/-- The scalars in ascending order; scalars that cannot be compared are a misuse. -/
def sorted (xs : List Scalar) : Except Fault (List Scalar) :=
  match xs.foldlM (fun acc x => insertSorted x acc) [] with
  | some ys => .ok ys
  | none => .error (.misuse .wrongKind)

end Scalar

end ApiBindings
