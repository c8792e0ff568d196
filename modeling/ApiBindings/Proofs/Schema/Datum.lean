import ApiBindings.TypeExpr.Basic
import ApiBindings.Text.Quoted

/-!
The data that requests and answers carry, and the type expressions as the sets of data that they
accept. Type names stand for any sets.
-/

namespace ApiBindings

/-- A JSON value. Numbers are exact, and an object may repeat a name. -/
inductive Datum where
  | null
  | bool (b : Bool)
  | number (x : Rat)
  | string (s : String)
  | array (items : List Datum)
  | object (members : List (String × Datum))

namespace Datum

/-- The literal that denotes a datum. Fractions, arrays and objects have none. -/
def token? : Datum → Option String
  | .null => some "null"
  | .bool b => some (if b then "true" else "false")
  | .number x => if x.isInt then some (Text.ofInt x.num) else none
  | .string s => some (Text.quote s)
  | .array _ => none
  | .object _ => none

def HasKeys (keys : List String) (d : Datum) : Prop :=
  ∃ members, d = .object members ∧ ∀ key ∈ keys, ∃ x, (key, x) ∈ members

end Datum

namespace TypeExpr

def primitiveAccepts (name : String) (d : Datum) : Prop :=
  match name with
  | "any" => True
  | "unknown" => True
  | "null" => d = .null
  | "number" => ∃ x, d = .number x
  | "string" => ∃ s, d = .string s
  | "boolean" => ∃ b, d = .bool b
  | _ => False

mutual

/-- The data that an expression accepts, if `names` says what each type name does. A member of a
shape is looked at under the field of its key, and under the index only if no field has its key;
the shape without fields takes everything but null. -/
def Accepts (names : String → Datum → Prop) : TypeExpr → Datum → Prop
  | .primitive name, d => primitiveAccepts name d
  | .named name, d => names name d
  | .literals tokens, d => ∃ token ∈ tokens, d.token? = some token
  | .array item, d => ∃ items, d = .array items ∧ ∀ x ∈ items, Accepts names item x
  | .tuple item length, d =>
    ∃ items, d = .array items ∧ items.length = length.toNat ∧ ∀ x ∈ items, Accepts names item x
  | .freeFormMap, d => ∃ members, d = .object members
  | .shape [] none, d => d ≠ .null
  | .shape fields index, d =>
    ∃ members, d = .object members ∧ AcceptsFields names fields members ∧
      AcceptsIndex names (fields.map (·.1.name)) index members
  | .union members, d => AcceptsSome names members d
  | .intersection members, d => AcceptsAll names members d
  | .requiring inner keys, d => Accepts names inner d ∧ d.HasKeys keys

def AcceptsSome (names : String → Datum → Prop) : List TypeExpr → Datum → Prop
  | [], _ => False
  | t :: ts, d => Accepts names t d ∨ AcceptsSome names ts d

def AcceptsAll (names : String → Datum → Prop) : List TypeExpr → Datum → Prop
  | [], _ => True
  | t :: ts, d => Accepts names t d ∧ AcceptsAll names ts d

def AcceptsFields (names : String → Datum → Prop) :
    List (Field × TypeExpr) → List (String × Datum) → Prop
  | [], _ => True
  | (field, t) :: rest, members =>
    (field.required = true → ∃ x, (field.name, x) ∈ members) ∧
      (∀ x, (field.name, x) ∈ members → Accepts names t x) ∧ AcceptsFields names rest members

def AcceptsIndex (names : String → Datum → Prop) (declared : List String) :
    Option TypeExpr → List (String × Datum) → Prop
  | none, _ => True
  | some t, members => ∀ key x, (key, x) ∈ members → key ∉ declared → Accepts names t x

end

variable {names : String → Datum → Prop} {d : Datum}

theorem accepts_primitive {name : String} :
    (primitive name).Accepts names d ↔ primitiveAccepts name d := by
  rw [Accepts]

theorem acceptsSome_iff {ts : List TypeExpr} :
    AcceptsSome names ts d ↔ ∃ t ∈ ts, Accepts names t d := by
  induction ts with
  | nil => simp [AcceptsSome]
  | cons t ts ih => simp [AcceptsSome, ih]

theorem acceptsAll_iff {ts : List TypeExpr} :
    AcceptsAll names ts d ↔ ∀ t ∈ ts, Accepts names t d := by
  induction ts with
  | nil => simp [AcceptsAll]
  | cons t ts ih => simp [AcceptsAll, ih]

theorem acceptsFields_iff {fields : List (Field × TypeExpr)} {members : List (String × Datum)} :
    AcceptsFields names fields members ↔ ∀ f ∈ fields,
      (f.1.required = true → ∃ x, (f.1.name, x) ∈ members) ∧
        ∀ x, (f.1.name, x) ∈ members → Accepts names f.2 x := by
  induction fields with
  | nil => simp [AcceptsFields]
  | cons f fields ih =>
    obtain ⟨field, t⟩ := f
    simp only [AcceptsFields, ih, List.mem_cons, forall_eq_or_imp, and_assoc]

end TypeExpr

end ApiBindings
