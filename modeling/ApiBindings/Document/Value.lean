import ApiBindings.Numeric.Binary64
import ApiBindings.Numeric.Calendar

/-!
Documents: scalars, lists and mappings whose entries keep their order. A mapping may carry a
label; mappings with one label are one object that several places of the document share.
-/

namespace ApiBindings

inductive Scalar where
  | null
  | bool (b : Bool)
  | int (n : Int)
  | float (x : Binary64)
  | str (s : String)
  | date (d : Date)
  | dateTime (t : DateTime)
  | time (t : TimeOfDay)
  | bytes (bs : List UInt8)
deriving DecidableEq, Inhabited

/-- A document node. Sets and pairs come from the tags of YAML that ask for them. -/
inductive Value where
  | scalar (s : Scalar)
  | list (items : List Value)
  | map (label : Option Nat) (entries : List (Scalar × Value))
  | set (members : List Scalar)
  | pair (first second : Value)
deriving Inhabited

abbrev Entries := List (Scalar × Value)

namespace Value

@[match_pattern] abbrev null : Value := .scalar .null
@[match_pattern] abbrev bool (b : Bool) : Value := .scalar (.bool b)
@[match_pattern] abbrev int (n : Int) : Value := .scalar (.int n)
@[match_pattern] abbrev float (x : Binary64) : Value := .scalar (.float x)
@[match_pattern] abbrev str (s : String) : Value := .scalar (.str s)

def ofEntries (es : Entries) : Value := .map none es

end Value

namespace Scalar

def integer? : Scalar → Option Int
  | .bool b => some (if b then 1 else 0)
  | .int n => some n
  | .float x => x.toInt?
  | _ => none

/-- Equality across kinds: truth values are the numbers 0 and 1, and a float equals the integer
that it is. Nothing equals `nan`. -/
def equals (a b : Scalar) : Bool :=
  match a, b with
  | .null, .null => true
  | .str s, .str t => s == t
  | .bytes s, .bytes t => s == t
  | .date d, .date e => d == e
  | .dateTime t, .dateTime u => t.equals u
  | .time t, .time u => t == u
  | .float x, .float y => x.equals y
  | a, b =>
    match a.integer?, b.integer? with
    | some m, some n => m == n
    | _, _ => false

/-- Equality of keys and of members: equal, or both `nan`. -/
def isKey (a b : Scalar) : Bool := a.equals b || (a == .float .nan && b == .float .nan)

def isFilled : Scalar → Bool
  | .null => false
  | .bool b => b
  | .int n => n != 0
  | .float x => !x.isZero
  | .str s => s != ""
  | .bytes bs => !bs.isEmpty
  | .date _ => true
  | .dateTime _ => true
  | .time _ => true

end Scalar

namespace Entries

def find? (es : Entries) (key : Scalar) : Option Value :=
  match es with
  | [] => none
  | (k, v) :: rest => if k.isKey key then some v else find? rest key

def get? (es : Entries) (key : String) : Option Value := es.find? (.str key)

def get (es : Entries) (key : String) : Value := (es.get? key).getD .null

def has (es : Entries) (key : String) : Bool := (es.get? key).isSome

/-- Writes a value under a key: in its place if the key is there, at the end otherwise. -/
def put (es : Entries) (key : Scalar) (value : Value) : Entries :=
  match es with
  | [] => [(key, value)]
  | (k, v) :: rest => if k.isKey key then (k, value) :: rest else (k, v) :: put rest key value

/-- The entries written one after the other: of equal keys the first place and the last value. -/
def ofList (es : List (Scalar × Value)) : Entries := es.foldl (fun acc e => put acc e.1 e.2) []

theorem sizeOf_of_find? {es : Entries} {key : Scalar} {v : Value} (h : es.find? key = some v) :
    sizeOf v < sizeOf es := by
  induction es with
  | nil => simp [find?] at h
  | cons e rest ih =>
    obtain ⟨k, w⟩ := e
    simp only [find?] at h
    split at h
    · cases h; simp; omega
    · have := ih h; simp; omega

end Entries

namespace Value

def isFilled : Value → Bool
  | .scalar s => s.isFilled
  | .list items => !items.isEmpty
  | .map _ es => !es.isEmpty
  | .set ms => !ms.isEmpty
  | .pair .. => true

def isMap : Value → Bool
  | .map .. => true
  | _ => false

def filled? (v : Value) : Option Value := if v.isFilled then some v else none

mutual

/-- Equality of values: scalars across kinds, lists by position, mappings by key in any order.
With `nanIsNan` a `nan` is the same as itself, as it is inside of collections. -/
def sameAs (nanIsNan : Bool) : Value → Value → Bool
  | .scalar a, .scalar b => if nanIsNan then a.isKey b else a.equals b
  | .list xs, .list ys => sameItems xs ys
  | .map _ es, .map _ fs => es.length == fs.length && sameEntries es fs
  | .set xs, .set ys => xs.length == ys.length && xs.all fun x => ys.any x.isKey
  | .pair a b, .pair c d => sameAs true a c && sameAs true b d
  | _, _ => false

def sameItems : List Value → List Value → Bool
  | [], [] => true
  | x :: xs, y :: ys => sameAs true x y && sameItems xs ys
  | _, _ => false

def sameEntries : List (Scalar × Value) → Entries → Bool
  | [], _ => true
  | (k, v) :: rest, fs =>
    (match fs.find? k with
      | some w => sameAs true v w
      | none => false) && sameEntries rest fs

end

def equals (v w : Value) : Bool := sameAs false v w

end Value

end ApiBindings
