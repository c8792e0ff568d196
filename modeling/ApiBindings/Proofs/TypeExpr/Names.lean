import ApiBindings.Proofs.Schema.Resolve
import Mathlib.Tactic.SplitIfs

/-!
The names of types that stand in an expression. Main statement: joining expressions, adding null
to them and making fields mandatory brings no name in.
-/

namespace ApiBindings

namespace TypeExpr

mutual

def names : TypeExpr → List String
  | .named name => [name]
  | .array item => names item
  | .tuple item _ => names item
  | .shape fields index => fieldNames fields ++ indexNames index
  | .union members => memberNames members
  | .intersection members => memberNames members
  | .requiring inner _ => names inner
  | _ => []

def memberNames : List TypeExpr → List String
  | [] => []
  | t :: ts => names t ++ memberNames ts

def fieldNames : List (Field × TypeExpr) → List String
  | [] => []
  | (_, t) :: rest => names t ++ fieldNames rest

def indexNames : Option TypeExpr → List String
  | none => []
  | some t => names t

end

theorem memberNames_eq (ts : List TypeExpr) : memberNames ts = ts.flatMap names := by
  induction ts with
  | nil => rfl
  | cons t ts ih => rw [memberNames, List.flatMap_cons, ih]

theorem fieldNames_eq (fields : List (Field × TypeExpr)) :
    fieldNames fields = fields.flatMap fun f => f.2.names := by
  induction fields with
  | nil => rfl
  | cons f fields ih => rw [fieldNames, List.flatMap_cons, ih]

theorem mem_names_union {ts : List TypeExpr} {name : String} :
    name ∈ (TypeExpr.union ts).names ↔ ∃ t ∈ ts, name ∈ t.names := by
  rw [names, memberNames_eq, List.mem_flatMap]

theorem mem_names_intersection {ts : List TypeExpr} {name : String} :
    name ∈ (TypeExpr.intersection ts).names ↔ ∃ t ∈ ts, name ∈ t.names := by
  rw [names, memberNames_eq, List.mem_flatMap]

theorem mem_names_shape {fields : List (Field × TypeExpr)} {index : Option TypeExpr}
    {name : String} : name ∈ (TypeExpr.shape fields index).names ↔
      (∃ f ∈ fields, name ∈ f.2.names) ∨ ∃ t ∈ index, name ∈ t.names := by
  rw [names, List.mem_append, fieldNames_eq, List.mem_flatMap]
  cases index <;> simp [indexNames]

@[simp]
theorem names_primitive (name : String) : (TypeExpr.primitive name).names = [] := rfl

@[simp]
theorem names_literals (tokens : List String) : (TypeExpr.literals tokens).names = [] := rfl

@[simp]
theorem names_any : any.names = [] := rfl

@[simp]
theorem names_null : null.names = [] := rfl

theorem names_nullable (t : TypeExpr) : t.nullable.names = t.names := by
  have hunion (t : TypeExpr) : (TypeExpr.union [t, null]).names = t.names := by
    simp [names, memberNames]
  unfold nullable
  split_ifs
  · rfl
  · split
    · split_ifs
      · rfl
      · exact hunion _
    · rw [names, names, memberNames_eq, memberNames_eq, List.flatMap_append]
      simp
    · exact hunion _

theorem mem_distinct {ts : List TypeExpr} {t : TypeExpr} : t ∈ distinct ts ↔ t ∈ ts := by
  have hfold (seen : List TypeExpr) :
      t ∈ ts.foldl (fun seen t => if t ∈ seen then seen else seen ++ [t]) seen ↔
        t ∈ seen ∨ t ∈ ts := by
    induction ts generalizing seen with
    | nil => simp
    | cons u ts ih =>
      rw [List.foldl_cons, ih]
      split_ifs with hu
      · grind
      · grind
  rw [distinct, hfold]
  simp

theorem mem_names_unionOf {ts : List TypeExpr} {t : TypeExpr} {name : String}
    (h : unionOf ts = some t) (hname : name ∈ t.names) : ∃ u ∈ ts, name ∈ u.names := by
  have hmem : ∃ u ∈ distinct ts, name ∈ u.names := by
    unfold unionOf at h
    split at h
    · cases h
    · cases h
      exact ⟨t, by simp_all, hname⟩
    · cases h
      exact mem_names_union.mp hname
  obtain ⟨u, hu, hname⟩ := hmem
  exact ⟨u, mem_distinct.mp hu, hname⟩

theorem names_ofEnum {values : Value} {asText : Bool} {t : TypeExpr}
    (h : ofEnum values asText = .ok t) : t.names = [] := by
  obtain ⟨items, -, rfl⟩ := Schema.ofEnum_ok h
  rfl

end TypeExpr

namespace Schema

theorem names_enumOr {es : Entries} {asText : Bool} {t u : TypeExpr}
    (h : enumOr es asText t = .ok u) (ht : t.names = []) : u.names = [] := by
  rcases enumOr_ok h with ⟨-, henum⟩ | ⟨-, rfl⟩
  · exact TypeExpr.names_ofEnum henum
  · exact ht

theorem mem_names_joined {join : List TypeExpr → TypeExpr} {ts : List TypeExpr} {name : String}
    (hjoin : ∀ ts, name ∈ (join ts).names ↔ ∃ t ∈ ts, name ∈ t.names)
    (h : name ∈ (joined join ts).names) : ∃ t ∈ ts, name ∈ t.names := by
  rcases joined_cases join ts with ⟨t, rfl, hjoined⟩ | ⟨-, hjoined⟩
  · rw [hjoined] at h
    exact ⟨t, List.mem_singleton_self t, h⟩
  · rw [hjoined] at h
    exact (hjoin ts).mp h

theorem names_withRequired {t u : TypeExpr} {required : Value}
    (h : withRequired t required = .ok u) : u.names = t.names := by
  rcases withRequired_ok h with ⟨-, rfl⟩ | ⟨-, -, keys, -, -, rfl⟩
  · rfl
  · rfl

end Schema

end ApiBindings
