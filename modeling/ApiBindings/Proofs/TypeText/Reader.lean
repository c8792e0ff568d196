import ApiBindings.Proofs.TypeText.Scan
import ApiBindings.Proofs.TypeText.Tree

/-!
Types read from their lexemes: `[]` binds tighter than `&`, and `&` tighter than `|`. Main
statements: one rule of the grammar each.
-/

namespace ApiBindings.TypeText

structure Parsed (α : Type) (ts : List Token) where
  value : α
  rest : List Token
  shorter : rest.length < ts.length

namespace Parsed

variable {α β : Type} {ts us : List Token}

def map (f : α → β) (x : Parsed α ts) : Parsed β ts := ⟨f x.value, x.rest, x.shorter⟩

def within (x : Parsed α us) (h : us.length < ts.length) : Parsed α ts :=
  ⟨x.value, x.rest, Nat.lt_trans x.shorter h⟩

def before? (c : Char) : Parsed α ts → Option (Parsed α ts)
  | ⟨value, .mark d :: rest, h⟩ =>
    if c = d then some ⟨value, rest, Nat.lt_of_succ_lt h⟩ else none
  | _ => none

end Parsed

def Connective.mark : Connective → Char
  | .union => '|'
  | .intersection => '&'

/-- How far the connective stands above the atoms. -/
def Connective.level : Connective → Nat
  | .union => 3
  | .intersection => 1

def suffixed (u : TypeTree) : List Token → TypeTree × List Token
  | .mark '[' :: .mark ']' :: rest => suffixed (.array u) rest
  | rest => (u, rest)

theorem suffixed_length (u : TypeTree) (ts : List Token) :
    (suffixed u ts).2.length ≤ ts.length := by
  fun_induction suffixed u ts with
  | case1 u rest ih =>
    simp only [List.length_cons]
    omega
  | case2 => exact Nat.le_refl _

def Parsed.suffixed {ts : List Token} (x : Parsed TypeTree ts) : Parsed TypeTree ts :=
  ⟨(TypeText.suffixed x.value x.rest).1, (TypeText.suffixed x.value x.rest).2,
    Nat.lt_of_le_of_lt (suffixed_length x.value x.rest) x.shorter⟩

def stringOf (body : List Char) : Option String := (unescape body).map String.ofList

/-- Quoted keys with `|` between them, up to `>`. -/
def readKeys : (ts : List Token) → Option (Parsed (List String) ts)
  | .string body :: .mark '>' :: rest => do
    return ⟨[← stringOf body], rest, by simp only [List.length_cons]; omega⟩
  | .string body :: .mark '|' :: rest => do
    let key ← stringOf body
    let keys ← readKeys rest
    return (keys.map (key :: ·)).within (by simp only [List.length_cons]; omega)
  | _ => none

def readFieldKey (name : String) : (ts : List Token) → Option (Parsed Key ts)
  | .mark ':' :: rest => some ⟨.field name true, rest, by simp⟩
  | .mark '?' :: .mark ':' :: rest =>
    some ⟨.field name false, rest, by simp only [List.length_cons]; omega⟩
  | _ => none

def readKey : (ts : List Token) → Option (Parsed Key ts)
  | .word name :: rest => (readFieldKey name rest).map (·.within (by simp))
  | .string body :: rest => do
    return (← readFieldKey (← stringOf body) rest).within (by simp)
  | .mark '[' :: .word _ :: .mark ':' :: .word "string" :: .mark ']' :: .mark ':' :: rest =>
    some ⟨.index, rest, by simp only [List.length_cons]; omega⟩
  | _ => none

mutual

def readParts (c : Connective) (ts : List Token) : Option (Parsed (List TypeTree) ts) := do
  let head ← readPart c ts
  match head.before? c.mark with
  | some head => do
    let tail ← readParts c head.rest
    return (tail.map (head.value :: ·)).within head.shorter
  | none => return head.map ([·])
termination_by (ts.length, c.level + 1)
decreasing_by
  · exact .right _ (Nat.lt_succ_self _)
  · exact .left _ _ head.shorter

def readPart (c : Connective) (ts : List Token) : Option (Parsed TypeTree ts) :=
  match c with
  | .union => do return (← readParts .intersection ts).map (TypeTree.joined .intersection)
  | .intersection => do return (← readAtom ts).suffixed
termination_by (ts.length, c.level)
decreasing_by
  · exact .right _ (by decide)
  · exact .right _ (by decide)

def readAtom (ts : List Token) : Option (Parsed TypeTree ts) :=
  match ts with
  | .word name :: .mark '<' :: rest =>
    if name = "Require" then do
      let inner ← readParts .union rest
      let inner ← inner.before? ','
      let keys ← readKeys inner.rest
      return (keys.map (.requiring (.joined .union inner.value))).within
        (by have := inner.shorter; simp only [List.length_cons]; omega)
    else none
  | .word name :: rest => some ⟨.ofWord name, rest, by simp⟩
  | .number text :: rest => some ⟨.literal text, rest, by simp⟩
  | .string body :: rest => some ⟨.literal (String.ofList ('"' :: body ++ ['"'])), rest, by simp⟩
  | .mark '(' :: rest => do
    let inner ← readParts .union rest
    let inner ← inner.before? ')'
    return (inner.map (TypeTree.joined .union)).within (by simp)
  | .mark '[' :: rest => do return ((← readItems rest).map .tuple).within (by simp)
  | .mark '\x7b' :: rest => do return ((← readMembers rest).map .braces).within (by simp)
  | _ => none
termination_by (ts.length, 0)
decreasing_by
  · exact .left _ _ (by simp only [List.length_cons]; omega)
  · exact .left _ _ (by simp)
  · exact .left _ _ (by simp)
  · exact .left _ _ (by simp)

def readItems (ts : List Token) : Option (Parsed (List TypeTree) ts) :=
  match ts with
  | .mark ']' :: rest => some ⟨[], rest, by simp⟩
  | ts => do
    let head ← readParts .union ts
    let head := head.map (TypeTree.joined .union)
    match head.before? ',' with
    | some head => do
      let tail ← readItems head.rest
      return (tail.map (head.value :: ·)).within head.shorter
    | none => do return (← head.before? ']').map ([·])
termination_by (ts.length, 5)
decreasing_by
  · exact .right _ (by decide)
  · exact .left _ _ head.shorter

def readMembers (ts : List Token) : Option (Parsed (List (Key × TypeTree)) ts) :=
  match ts with
  | .mark '\x7d' :: rest => some ⟨[], rest, by simp⟩
  | ts => do
    let key ← readKey ts
    let type ← readParts .union key.rest
    let head := (type.map fun us => (key.value, TypeTree.joined .union us)).within key.shorter
    match head.before? ';' with
    | some head => do
      let tail ← readMembers head.rest
      return (tail.map (head.value :: ·)).within head.shorter
    | none => do return (← head.before? '\x7d').map ([·])
termination_by (ts.length, 5)
decreasing_by
  · exact .left _ _ key.shorter
  · exact .left _ _ head.shorter

end

def read (text : String) : Option TypeTree := do
  let tokens ← scan text.toList
  let type ← readParts .union tokens
  if type.rest = [] then return .joined .union type.value else none

def Reads {α : Type} (reader : (ts : List Token) → Option (Parsed α ts)) (ts : List Token)
    (value : α) (rest : List Token) : Prop :=
  ∃ x, reader ts = some x ∧ x.value = value ∧ x.rest = rest

section

variable {α : Type} {ts mid rest : List Token} {c : Connective} {u : TypeTree} {us : List TypeTree}

theorem Parsed.before?_eq_some {x : Parsed α ts} {m : Char} (h : x.rest = .mark m :: rest) :
    ∃ y, x.before? m = some y ∧ y.value = x.value ∧ y.rest = rest := by
  obtain ⟨value, after, hs⟩ := x
  cases h
  exact ⟨⟨value, rest, _⟩, if_pos rfl, rfl, rfl⟩

theorem Parsed.before?_eq_none {x : Parsed α ts} {m : Char} (h : x.rest.head? ≠ some (.mark m)) :
    x.before? m = none := by
  obtain ⟨value, _ | ⟨t, after⟩, hs⟩ := x
  · rfl
  · cases t with
    | mark d =>
      refine if_neg ?_
      rintro rfl
      exact h rfl
    | _ => rfl

theorem Reads.parts_cons (h : Reads (readPart c) ts u (.mark c.mark :: mid))
    (ht : Reads (readParts c) mid us rest) : Reads (readParts c) ts (u :: us) rest := by
  obtain ⟨x, hx, rfl, hm⟩ := h
  obtain ⟨y, hy, hv, rfl⟩ := Parsed.before?_eq_some hm
  obtain ⟨z, hz, rfl, rfl⟩ := ht
  refine ⟨(z.map (x.value :: ·)).within y.shorter, ?_, rfl, rfl⟩
  rw [readParts, hx]
  simp [hy, hz, hv]

theorem Reads.parts_last (h : Reads (readPart c) ts u rest)
    (hr : rest.head? ≠ some (.mark c.mark)) : Reads (readParts c) ts [u] rest := by
  obtain ⟨x, hx, rfl, rfl⟩ := h
  refine ⟨x.map ([·]), ?_, rfl, rfl⟩
  rw [readParts, hx]
  simp [Parsed.before?_eq_none hr]

theorem Reads.intersections (h : Reads (readParts .intersection) ts us rest) :
    Reads (readPart .union) ts (.joined .intersection us) rest := by
  obtain ⟨x, hx, rfl, rfl⟩ := h
  refine ⟨x.map (TypeTree.joined .intersection), ?_, rfl, rfl⟩
  rw [readPart, hx]
  rfl

theorem Reads.suffixed (h : Reads readAtom ts u mid) :
    Reads (readPart .intersection) ts (suffixed u mid).1 (suffixed u mid).2 := by
  obtain ⟨x, hx, rfl, rfl⟩ := h
  refine ⟨x.suffixed, ?_, rfl, rfl⟩
  rw [readPart, hx]
  rfl

theorem Reads.word (name : String) (h : rest.head? ≠ some (.mark '<')) :
    Reads readAtom (.word name :: rest) (.ofWord name) rest := by
  refine ⟨⟨.ofWord name, rest, by simp⟩, ?_, rfl, rfl⟩
  rw [readAtom]
  intro after he
  simp [he] at h

theorem Reads.number (text : String) :
    Reads readAtom (.number text :: rest) (.literal text) rest := by
  refine ⟨⟨.literal text, rest, by simp⟩, ?_, rfl, rfl⟩
  rw [readAtom]

theorem Reads.string (rest : List Token) (body : List Char) :
    Reads readAtom (.string body :: rest)
      (.literal (String.ofList ('"' :: body ++ ['"']))) rest := by
  refine ⟨⟨_, rest, by simp⟩, ?_, rfl, rfl⟩
  rw [readAtom]

theorem Reads.parenthesized (h : Reads (readParts .union) ts us (.mark ')' :: rest)) :
    Reads readAtom (.mark '(' :: ts) (.joined .union us) rest := by
  obtain ⟨x, hx, rfl, hm⟩ := h
  obtain ⟨y, hy, hv, rfl⟩ := Parsed.before?_eq_some hm
  refine ⟨(y.map (TypeTree.joined .union)).within (by simp), ?_,
    congrArg (TypeTree.joined .union) hv, rfl⟩
  rw [readAtom, hx]
  simp [hy]

theorem Reads.tuple (h : Reads readItems ts us rest) :
    Reads readAtom (.mark '[' :: ts) (.tuple us) rest := by
  obtain ⟨x, hx, rfl, rfl⟩ := h
  refine ⟨(x.map TypeTree.tuple).within (by simp), ?_, rfl, rfl⟩
  rw [readAtom, hx]
  rfl

theorem Reads.braces {ms : List (Key × TypeTree)} (h : Reads readMembers ts ms rest) :
    Reads readAtom (.mark '\x7b' :: ts) (.braces ms) rest := by
  obtain ⟨x, hx, rfl, rfl⟩ := h
  refine ⟨(x.map TypeTree.braces).within (by simp), ?_, rfl, rfl⟩
  rw [readAtom, hx]
  rfl

theorem Reads.requiring {keys : List String} (h : Reads (readParts .union) ts us (.mark ',' :: mid))
    (hk : Reads readKeys mid keys rest) :
    Reads readAtom (.word "Require" :: .mark '<' :: ts) (.requiring (.joined .union us) keys)
      rest := by
  obtain ⟨x, hx, rfl, hm⟩ := h
  obtain ⟨y, hy, hv, rfl⟩ := Parsed.before?_eq_some hm
  obtain ⟨z, hz, rfl, rfl⟩ := hk
  refine ⟨(z.map (.requiring (.joined .union y.value))).within ?_, ?_, ?_, rfl⟩
  · have := y.shorter
    simp only [List.length_cons]
    omega
  · rw [readAtom, if_pos rfl, hx]
    simp [hy, hz]
  · rw [hv]
    rfl

theorem Reads.ne_close (h : Reads (readParts .union) ts us rest) (after : List Token) :
    ts ≠ .mark ']' :: after := by
  rintro rfl
  obtain ⟨x, hx, -⟩ := h
  have ha : readAtom (.mark ']' :: after) = none := by
    rw [readAtom] <;> simp
  rw [readParts, readPart, readParts, readPart, ha] at hx
  cases hx

theorem Reads.key_ne_close {key : Key} (h : Reads readKey ts key mid) (after : List Token) :
    ts ≠ .mark '\x7d' :: after := by
  rintro rfl
  obtain ⟨x, hx, -⟩ := h
  cases hx

theorem Reads.items_nil : Reads readItems (.mark ']' :: rest) [] rest := by
  refine ⟨⟨[], rest, by simp⟩, ?_, rfl, rfl⟩
  rw [readItems]

theorem Reads.items_cons {vs : List TypeTree}
    (h : Reads (readParts .union) ts us (.mark ',' :: mid)) (ht : Reads readItems mid vs rest) :
    Reads readItems ts (.joined .union us :: vs) rest := by
  have hclose := h.ne_close
  obtain ⟨x, hx, rfl, hm⟩ := h
  obtain ⟨y, hy, hv, rfl⟩ :=
    Parsed.before?_eq_some (x := x.map (TypeTree.joined .union)) hm
  obtain ⟨z, hz, rfl, rfl⟩ := ht
  refine ⟨(z.map (y.value :: ·)).within y.shorter, ?_, congrArg (· :: z.value) hv, rfl⟩
  rw [readItems, hx]
  · simp [hy, hz]
  · exact hclose

theorem Reads.items_last (h : Reads (readParts .union) ts us (.mark ']' :: rest)) :
    Reads readItems ts [.joined .union us] rest := by
  have hclose := h.ne_close
  obtain ⟨x, hx, rfl, hm⟩ := h
  obtain ⟨y, hy, hv, rfl⟩ :=
    Parsed.before?_eq_some (x := x.map (TypeTree.joined .union)) hm
  have hn : (x.map (TypeTree.joined .union)).before? ',' = none := by
    refine Parsed.before?_eq_none ?_
    rw [Parsed.map, hm]
    simp
  refine ⟨y.map ([·]), ?_, congrArg ([·]) hv, rfl⟩
  rw [readItems, hx]
  · simp [hn, hy]
  · exact hclose

theorem Reads.members_nil : Reads readMembers (.mark '\x7d' :: rest) [] rest := by
  refine ⟨⟨[], rest, by simp⟩, ?_, rfl, rfl⟩
  rw [readMembers]

theorem Reads.members_cons {key : Key} {after : List Token} {ms : List (Key × TypeTree)}
    (hk : Reads readKey ts key mid) (h : Reads (readParts .union) mid us (.mark ';' :: after))
    (ht : Reads readMembers after ms rest) :
    Reads readMembers ts ((key, .joined .union us) :: ms) rest := by
  have hclose := hk.key_ne_close
  obtain ⟨k, hk, rfl, rfl⟩ := hk
  obtain ⟨x, hx, rfl, hm⟩ := h
  obtain ⟨y, hy, hv, rfl⟩ := Parsed.before?_eq_some
    (x := (x.map fun us => (k.value, TypeTree.joined .union us)).within k.shorter) hm
  obtain ⟨z, hz, rfl, rfl⟩ := ht
  refine ⟨(z.map (y.value :: ·)).within y.shorter, ?_, congrArg (· :: z.value) hv, rfl⟩
  rw [readMembers, hk]
  · simp [hx, hy, hz]
  · exact hclose

theorem Reads.members_last {key : Key} (hk : Reads readKey ts key mid)
    (h : Reads (readParts .union) mid us (.mark '\x7d' :: rest)) :
    Reads readMembers ts [(key, .joined .union us)] rest := by
  have hclose := hk.key_ne_close
  obtain ⟨k, hk, rfl, rfl⟩ := hk
  obtain ⟨x, hx, rfl, hm⟩ := h
  let head := (x.map fun us => (k.value, TypeTree.joined .union us)).within k.shorter
  obtain ⟨y, hy, hv, rfl⟩ := Parsed.before?_eq_some (x := head) hm
  have hn : head.before? ';' = none := by
    refine Parsed.before?_eq_none ?_
    rw [show head.rest = _ from hm]
    simp
  refine ⟨y.map ([·]), ?_, congrArg ([·]) hv, rfl⟩
  rw [readMembers, hk]
  · simp only [Option.bind_eq_bind, Option.bind_some, hx]
    rw [show Parsed.before? ';' _ = _ from hn, show Parsed.before? '\x7d' _ = _ from hy]
    rfl
  · exact hclose

def fieldMarks (required : Bool) : List Token :=
  if required then [.mark ':'] else [.mark '?', .mark ':']

theorem reads_fieldKey (name : String) (required : Bool) (rest : List Token) :
    Reads (readFieldKey name) (fieldMarks required ++ rest) (.field name required) rest := by
  cases required <;> exact ⟨_, rfl, rfl, rfl⟩

theorem reads_wordKey (name : String) (required : Bool) :
    Reads readKey (.word name :: (fieldMarks required ++ rest)) (.field name required) rest := by
  obtain ⟨x, hx, hv, hr⟩ := reads_fieldKey name required rest
  exact ⟨x.within (by simp), by rw [readKey, hx]; rfl, hv, hr⟩

theorem reads_stringKey {name : String} {body : List Char} (hb : stringOf body = some name)
    (required : Bool) :
    Reads readKey (.string body :: (fieldMarks required ++ rest)) (.field name required)
      rest := by
  obtain ⟨x, hx, hv, hr⟩ := reads_fieldKey name required rest
  exact ⟨x.within (by simp), by rw [readKey, hb]; simp [hx], hv, hr⟩

theorem reads_indexKey (name : String) :
    Reads readKey (.mark '[' :: .word name :: .mark ':' :: .word "string" :: .mark ']' ::
      .mark ':' :: rest) .index rest :=
  ⟨_, rfl, rfl, rfl⟩

theorem Reads.keys_last {key : String} {body : List Char} (hb : stringOf body = some key) :
    Reads readKeys (.string body :: .mark '>' :: rest) [key] rest :=
  ⟨⟨[key], rest, by simp only [List.length_cons]; omega⟩, by rw [readKeys, hb]; rfl, rfl, rfl⟩

theorem Reads.keys_cons {key : String} {keys : List String} {body : List Char}
    (hb : stringOf body = some key) (h : Reads readKeys ts keys rest) :
    Reads readKeys (.string body :: .mark '|' :: ts) (key :: keys) rest := by
  obtain ⟨x, hx, rfl, rfl⟩ := h
  refine ⟨(x.map (key :: ·)).within (by simp only [List.length_cons]; omega), ?_, rfl, rfl⟩
  rw [readKeys, hb, hx]
  rfl

end

end ApiBindings.TypeText
