import ApiBindings.Json.Lexeme

/-!
Reading JSON. Of equal names in one object the first keeps its place and the last gives the
value.
-/

namespace ApiBindings.Json

mutual

def readValue (s : List Char) : Except Problem (Scanned Value s) :=
  match s with
  | '"' :: rest => do
    let text ← readString (rest.length + 1) rest
    return (text.map fun cs => Value.str (String.ofList cs)).within (by simp)
  | '[' :: rest =>
    match h : skipBlanks rest with
    | ']' :: after => .ok ⟨.list [], after, by
        have := length_skipBlanks_le rest; simp only [h, List.length_cons] at this ⊢; omega⟩
    | _ => do
      let items ← readItems (skipBlanks rest)
      return (items.map Value.list).within (by
        have := length_skipBlanks_le rest; simp only [List.length_cons]; omega)
  | '\x7b' :: rest =>
    match h : skipBlanks rest with
    | '\x7d' :: after => .ok ⟨.map none [], after, by
        have := length_skipBlanks_le rest; simp only [h, List.length_cons] at this ⊢; omega⟩
    | _ => do
      let members ← readMembers (skipBlanks rest)
      return (members.map fun es => Value.map none (Entries.ofList es)).within (by
        have := length_skipBlanks_le rest; simp only [List.length_cons]; omega)
  | s => do
    let (value, rest) ← readScalar s
    if h : rest.length < s.length then return ⟨.scalar value, rest, h⟩
    else .error (.malformed .valueExpected s.length)
termination_by (s.length, 0)
decreasing_by
  all_goals
    have := length_skipBlanks_le rest
    simp only [List.length_cons, Prod.lex_def]
    omega

/-- The elements of an array up to its closing bracket, of which there is at least one. -/
def readItems (s : List Char) : Except Problem (Scanned (List Value) s) := do
  let item ← readValue s
  match h : skipBlanks item.rest with
  | ']' :: after => return ⟨[item.value], after, by
      have := length_skipBlanks_le item.rest; have := item.shorter
      simp only [h, List.length_cons] at *; omega⟩
  | ',' :: after =>
    let tail ← readItems (skipBlanks after)
    return ⟨item.value :: tail.value, tail.rest, by
      have := length_skipBlanks_le item.rest; have := length_skipBlanks_le after
      have := item.shorter; have := tail.shorter
      simp only [h, List.length_cons] at *; omega⟩
  | other => .error (.malformed .commaExpected other.length)
termination_by (s.length, 1)
decreasing_by
  · exact Prod.Lex.right _ (by omega)
  · have := length_skipBlanks_le item.rest
    have := length_skipBlanks_le after
    have := item.shorter
    simp only [h, List.length_cons, Prod.lex_def] at *
    omega

/-- The members of an object up to its closing brace, of which there is at least one. -/
def readMembers (s : List Char) : Except Problem (Scanned (List (Scalar × Value)) s) :=
  match s with
  | '"' :: rest => do
    let name ← readString (rest.length + 1) rest
    match h : skipBlanks name.rest with
    | ':' :: afterColon =>
      let value ← readValue (skipBlanks afterColon)
      let entry := (Scalar.str (String.ofList name.value), value.value)
      match h' : skipBlanks value.rest with
      | '\x7d' :: after => return ⟨[entry], after, by
          have := length_skipBlanks_le name.rest; have := length_skipBlanks_le afterColon
          have := length_skipBlanks_le value.rest; have := name.shorter; have := value.shorter
          simp only [h, h', List.length_cons] at *; omega⟩
      | ',' :: after =>
        let tail ← readMembers (skipBlanks after)
        return ⟨entry :: tail.value, tail.rest, by
          have := length_skipBlanks_le name.rest; have := length_skipBlanks_le afterColon
          have := length_skipBlanks_le value.rest; have := length_skipBlanks_le after
          have := name.shorter; have := value.shorter; have := tail.shorter
          simp only [h, h', List.length_cons] at *; omega⟩
      | other => .error (.malformed .commaExpected other.length)
    | other => .error (.malformed .colonExpected other.length)
  | s => .error (.malformed .nameExpected s.length)
termination_by (s.length, 1)
decreasing_by
  · have := length_skipBlanks_le name.rest
    have := length_skipBlanks_le afterColon
    have := name.shorter
    simp only [h, List.length_cons, Prod.lex_def] at *
    omega
  · have := length_skipBlanks_le name.rest
    have := length_skipBlanks_le afterColon
    have := length_skipBlanks_le value.rest
    have := length_skipBlanks_le after
    have := name.shorter
    have := value.shorter
    simp only [h, h', List.length_cons, Prod.lex_def] at *
    omega

end

def read (doc : List Char) : Except Problem Value :=
  match doc with
  | '\ufeff' :: rest => .error (.malformed .byteOrderMark (rest.length + 1))
  | doc => do
    let found ← readValue (skipBlanks doc)
    match skipBlanks found.rest with
    | [] => return found.value
    | rest => .error (.malformed .trailingText rest.length)

end ApiBindings.Json
