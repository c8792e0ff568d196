import ApiBindings.Proofs.Schema.Datum
import ApiBindings.Proofs.Schema.Part

/-!
The schemas, and which data are valid for them. The keywords of a mapping are met one by one;
what a reference admits is given by `refs`. Main statement: `valid_map_iff`, the rule for a
mapping that is no reference.
-/

namespace ApiBindings.Schema

def typeNames : List String :=
  Kind.numericNames ++ Kind.textualNames ++ ["boolean", "array", "null", "object"]

/-- The numeric names that ask for a number without fraction. -/
def integralNames : List String := ["int32", "int64", "integer", "long"]

def enumerated? : Value → Option Datum
  | .scalar .null => some .null
  | .scalar (.bool b) => some (.bool b)
  | .scalar (.int n) => some (.number n)
  | .scalar (.str s) => some (.string s)
  | _ => none

def IsOfType (name : String) (d : Datum) : Prop :=
  if name ∈ Kind.numericNames then ∃ x, d = .number x ∧ (name ∈ integralNames → x.isInt = true)
  else if name ∈ Kind.textualNames then ∃ s, d = .string s
  else match name with
    | "boolean" => ∃ b, d = .bool b
    | "array" => ∃ items, d = .array items
    | "null" => d = .null
    | "object" => ∃ members, d = .object members
    | _ => False

/-- The keywords of a mapping, where they are present, have values of the right form. -/
structure Keywords (es : Entries) : Prop where
  type : ∀ v, es.get? "type" = some v → ∃ name ∈ typeNames, v = .str name
  enum : ∀ v, es.get? "enum" = some v →
    ∃ values, v = .list values ∧ values ≠ [] ∧ ∀ x ∈ values, (enumerated? x).isSome = true
  nullable : ∀ v, es.get? "nullable" = some v → ∃ b, v = .bool b
  minItems : ∀ v, es.get? "minItems" = some v → ∃ n, v = .int n
  maxItems : ∀ v, es.get? "maxItems" = some v → ∃ n, v = .int n
  properties : ∀ v, es.get? "properties" = some v → es.get? "type" = some (.str "object") ∧
    ∃ label properties, v = .map label properties ∧ ∀ p ∈ properties, ∃ name, p.1 = .str name
  additional : ∀ v, es.get? "additionalProperties" = some v →
    es.get? "type" = some (.str "object")
  required : ∀ v, es.get? "required" = some v →
    ∃ keys, v = .list keys ∧ ∀ key ∈ keys, ∃ name, key = .str name
  composition : ∀ key ∈ compositionKeys, ∀ v, es.get? key = some v →
    ∃ members, v = .list members ∧ members ≠ []

/-- The schemas: truth values, references, and mappings of well-formed keywords whose parts are
schemas again. -/
inductive IsSchema : Value → Prop
  | flag (b : Bool) : IsSchema (.bool b)
  | reference {label : Option Nat} {es : Entries} {ref : String} :
    reference? es = some (.str ref) → IsSchema (.map label es)
  | mapping {label : Option Nat} {es : Entries} : reference? es = none → Keywords es →
    (∀ s, Part es s → IsSchema s) → IsSchema (.map label es)

def Declares (es : Entries) (name : String) : Prop :=
  ∃ label properties s, es.get? "properties" = some (.map label properties) ∧
    (Scalar.str name, s) ∈ properties

def IsComposed (es : Entries) : Prop := ∃ key ∈ compositionKeys, es.has key = true

/-- A datum meets the keywords of a mapping; `valid` says what the schemas among them admit. -/
structure Meets (es : Entries) (valid : Value → Datum → Prop) (d : Datum) : Prop where
  type : ∀ name, es.get? "type" = some (.str name) → IsOfType name d
  enum : ∀ values, es.get? "enum" = some (.list values) → ∃ v ∈ values, enumerated? v = some d
  items : ∀ s items, es.get? "items" = some s → d = .array items → ∀ x ∈ items, valid s x
  minItems : ∀ n items, es.get? "minItems" = some (.int n) → d = .array items → n ≤ items.length
  maxItems : ∀ n items, es.get? "maxItems" = some (.int n) → d = .array items → items.length ≤ n
  properties : ∀ label properties members, es.get? "properties" = some (.map label properties) →
    d = .object members → ∀ name s x, (Scalar.str name, s) ∈ properties → (name, x) ∈ members →
      valid s x
  required : ∀ keys members, es.get? "required" = some (.list keys) → d = .object members →
    ∀ key, Value.str key ∈ keys → ∃ x, (key, x) ∈ members
  additional : ∀ s members, es.get? "additionalProperties" = some s → d = .object members →
    ∀ name x, (name, x) ∈ members → ¬ Declares es name → valid s x
  allOf : ∀ members, es.get? "allOf" = some (.list members) → ∀ s ∈ members, valid s d
  anyOf : ∀ members, es.get? "anyOf" = some (.list members) → ∃ s ∈ members, valid s d
  oneOf : ∀ members, es.get? "oneOf" = some (.list members) →
    ∃ (i : Nat) (_ : i < members.length), valid members[i] d ∧
      ∀ (j : Nat) (_ : j < members.length), valid members[j] d → j = i
  /-- Keys that a composition requires are those of an object. -/
  composed : ∀ keys, IsComposed es → es.get? "required" = some (.list keys) →
    keys ≠ [] → ∃ members, d = .object members
  /-- Null has to be asked for. -/
  null : d = .null →
    es.get? "type" = some (.str "null") ∨ es.has "enum" = true ∨ IsComposed es

theorem Meets.mono {es : Entries} {valid valid' : Value → Datum → Prop} {d : Datum}
    (h : ∀ s, Part es s → ∀ x, valid s x ↔ valid' s x) (hm : Meets es valid d) :
    Meets es valid' d where
  type := hm.type
  enum := hm.enum
  items s items hs hd x hx := (h s (.items hs) x).mp (hm.items s items hs hd x hx)
  minItems := hm.minItems
  maxItems := hm.maxItems
  properties label ps members hp hd name s x hs hx :=
    (h s (.property hp hs) x).mp (hm.properties label ps members hp hd name s x hs hx)
  required := hm.required
  additional s members hs hd name x hx hn :=
    (h s (.additional hs) x).mp (hm.additional s members hs hd name x hx hn)
  allOf members hms s hs :=
    (h s (.member (by simp) hms hs) d).mp (hm.allOf members hms s hs)
  anyOf members hms := by
    obtain ⟨s, hs, hd⟩ := hm.anyOf members hms
    exact ⟨s, hs, (h s (.member (by simp) hms hs) d).mp hd⟩
  oneOf members hms := by
    obtain ⟨i, hi, hd, hu⟩ := hm.oneOf members hms
    have hpart (j : Nat) (hj : j < members.length) : Part es members[j] :=
      .member (by simp) hms (List.getElem_mem hj)
    refine ⟨i, hi, (h _ (hpart i hi) d).mp hd, fun j hj hj' => hu j hj ?_⟩
    exact (h _ (hpart j hj) d).mpr hj'
  composed := hm.composed
  null := hm.null

/-- Validity of a datum: every datum for `true`, what the reference admits for a reference, and
for any other mapping null if it is nullable and the data that meet its keywords. -/
def Valid (refs : String → Datum → Prop) (schema : Value) (d : Datum) : Prop :=
  match schema with
  | .scalar s => s = .bool true
  | .map _ es =>
    match reference? es with
    | some ref => ∃ r, ref = .str r ∧ refs r d
    | none =>
      (Entries.get? es "nullable" = some (.bool true) ∧ d = .null) ∨
        Meets es (fun s x => ∃ _ : Part es s, Valid refs s x) d
  | _ => False
termination_by sizeOf schema
decreasing_by
  have := Part.sizeOf_lt ‹_›
  simp only [Value.map.sizeOf_spec]
  omega

theorem valid_map_iff {refs : String → Datum → Prop} {label : Option Nat} {es : Entries}
    {d : Datum} (h : reference? es = none) :
    Valid refs (.map label es) d ↔
      (es.get? "nullable" = some (.bool true) ∧ d = .null) ∨ Meets es (Valid refs) d := by
  rw [Valid, h]
  apply or_congr_right
  constructor
  · exact Meets.mono fun s hs x => ⟨fun ⟨_, hx⟩ => hx, fun hx => ⟨hs, hx⟩⟩
  · exact Meets.mono fun s hs x => ⟨fun hx => ⟨hs, hx⟩, fun ⟨_, hx⟩ => hx⟩

end ApiBindings.Schema
