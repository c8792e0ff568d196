import ApiBindings.Document.Value
import ApiBindings.Fault

/-!
Using a value as a mapping, a text, a collection or a key. A value of another kind is a misuse,
and which one depends on what was asked.
-/

namespace ApiBindings.Value

def entries : Value → Except Fault Entries
  | .map _ es => .ok es
  | _ => .error (.misuse .noSuchOperation)

/-- The entries of a mapping; an empty value has none. -/
def entriesOrNone (v : Value) : Except Fault Entries :=
  if v.isFilled then v.entries else .ok []

def expectText : Value → Except Fault String
  | .scalar (.str s) => .ok s
  | .scalar (.bytes _) => .error (.misuse .wrongKind)
  | _ => .error (.misuse .noSuchOperation)

def expectKey : Value → Except Fault Scalar
  | .scalar s => .ok s
  | _ => .error (.misuse .wrongKind)

/-- The elements one by one: characters of a text, keys of a mapping. -/
def elements : Value → Except Fault (List Value)
  | .list items => .ok items
  | .map _ es => .ok (es.map fun e => .scalar e.1)
  | .set ms => .ok (ms.map .scalar)
  | .pair a b => .ok [a, b]
  | .scalar (.str s) => .ok (s.toList.map fun c => .str (String.ofList [c]))
  | .scalar (.bytes bs) => .ok (bs.map fun b => .int b.toNat)
  | _ => .error (.misuse .wrongKind)

/-- Whether a collection holds a key: an element of a list, a key of a mapping, a part of a
text. -/
def holds (key : Scalar) : Value → Except Fault Bool
  | .list items => .ok (items.any fun v => sameAs true (.scalar key) v)
  | .map _ es => .ok ((Entries.find? es key).isSome)
  | .set ms => .ok (ms.any key.isKey)
  | .pair a b => .ok (sameAs true (.scalar key) a || sameAs true (.scalar key) b)
  | .scalar (.str s) =>
    match key with
    | .str part => .ok (Text.occursIn part.toList s.toList)
    | _ => .error (.misuse .wrongKind)
  | .scalar (.bytes bs) =>
    match key with
    | .bytes part =>
      let chars (bytes : List UInt8) := bytes.map fun b => Char.ofNat b.toNat
      .ok (Text.occursIn (chars part) (chars bs))
    | key =>
      match key with
      | .bool b => .ok (bs.contains (if b then 1 else 0))
      | .int n =>
        if 0 ≤ n ∧ n < 256 then .ok (bs.any fun b => (b.toNat : Int) == n)
        else .error (.misuse .invalidValue)
      | _ => .error (.misuse .wrongKind)
  | _ => .error (.misuse .wrongKind)

def asEntry (v : Value) : Except Fault (Scalar × Value) := do
  match ← v.elements with
  | [key, value] => return (← key.expectKey, value)
  | _ => .error (.misuse .invalidValue)

def toEntries : Value → Except Fault Entries
  | .map _ es => .ok es
  | v => do return Entries.ofList (← (← v.elements).mapM asEntry)

def textField : Value → Except Fault String
  | .scalar (.str s) => .ok s
  | _ => .error (.misuse .rejectedField)

def optionalTextField : Value → Except Fault (Option String)
  | .scalar .null => .ok none
  | .scalar (.str s) => .ok (some s)
  | _ => .error (.misuse .rejectedField)

end ApiBindings.Value
