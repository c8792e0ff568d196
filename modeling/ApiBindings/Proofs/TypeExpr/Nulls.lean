import ApiBindings.Proofs.Numeric.Numeral
import ApiBindings.Proofs.Success
import ApiBindings.TypeExpr.Alternatives

/-!
Null among the alternatives of an expression. Main statement: admitting null repeats it exactly
if it is there already and the expression is neither null nor a list of literals.
-/

namespace ApiBindings

/-- No two places of the list have the property. -/
def AtMostOne {α : Type} (p : α → Prop) (l : List α) : Prop := l.Pairwise fun a b => ¬ (p a ∧ p b)

namespace AtMostOne

variable {α β : Type} {p : α → Prop} {q : β → Prop}

theorem map_iff {f : β → α} {l : List β} :
    AtMostOne p (l.map f) ↔ AtMostOne (fun b => p (f b)) l :=
  List.pairwise_map

theorem concat_iff {l : List α} {a : α} :
    AtMostOne p (l ++ [a]) ↔ AtMostOne p l ∧ ¬ ((∃ b ∈ l, p b) ∧ p a) := by
  simp [AtMostOne, List.pairwise_append]

theorem flatMap_iff {f : β → List α} {l : List β} : AtMostOne p (l.flatMap f) ↔
    (∀ b ∈ l, AtMostOne p (f b)) ∧ AtMostOne (fun b => ∃ a ∈ f b, p a) l := by
  have hapart (b b' : β) : (∀ x ∈ f b, ∀ y ∈ f b', ¬ (p x ∧ p y)) ↔
      ¬ ((∃ a ∈ f b, p a) ∧ ∃ a ∈ f b', p a) := by
    grind
  simp only [AtMostOne, List.pairwise_flatMap, hapart]

theorem iff_of_forall₂ {l : List α} {m : List β} (h : List.Forall₂ (fun a b => p a ↔ q b) l m) :
    AtMostOne p l ↔ AtMostOne q m := by
  constructor
  · exact pairwise_of_forall₂ h.flip fun b b' a a' hb hb' hapart hq =>
      hapart ⟨hb.mpr hq.1, hb'.mpr hq.2⟩
  · exact pairwise_of_forall₂ h fun a a' b b' ha ha' hapart hp =>
      hapart ⟨ha.mp hp.1, ha'.mp hp.2⟩

end AtMostOne

namespace TypeExpr

section Token

theorem quote_ne_null (s : String) : Text.quote s ≠ "null" := by
  intro h
  have hhead := congrArg (fun x => x.toList.head?) h
  simp [Text.quote, Text.quotedChars] at hhead

theorem ne_null_of_isNumeral {x : String} (h : Text.isNumeral x = true) : x ≠ "null" := by
  rintro rfl
  revert h
  decide

theorem exists_scalar_of_literal {v : Value} (h : v.literal = "null") : ∃ s, v = .scalar s := by
  have hhead := congrArg (fun x => x.toList.head?) h
  cases v with
  | scalar s => exact ⟨s, rfl⟩
  | list items => simp [Value.literal] at hhead
  | map label es => simp [Value.literal] at hhead
  | set ms => cases ms <;> simp [Value.literal] at hhead
  | pair a b => simp [Value.literal] at hhead

theorem scalar_text_ne_null {s : Scalar} (hnull : s ≠ .null) (htext : ∀ x, s ≠ .str x) :
    s.text ≠ "null" := by
  cases s with
  | null => exact absurd rfl hnull
  | bool b => cases b <;> decide
  | int n => exact ne_null_of_isNumeral (Text.isNumeral_ofInt n)
  | float x => exact ne_null_of_isNumeral x.isNumeral_text
  | str x => exact absurd rfl (htext x)
  | date d => exact ne_null_of_isNumeral d.isNumeral_text
  | dateTime t => exact ne_null_of_isNumeral t.isNumeral_text
  | time t => exact ne_null_of_isNumeral t.isNumeral_text
  | bytes bs =>
    intro h
    have hhead := congrArg (fun x => x.toList.head?) h
    simp [Scalar.text, Scalar.literal, Text.bytesLiteral] at hhead

theorem literalToken_eq_null {asText : Bool} {v : Value} :
    literalToken asText v = "null" ↔ v = .null := by
  constructor
  · intro h
    by_contra hv
    unfold literalToken at h
    split at h
    · exact hv rfl
    · split_ifs at h
      · exact quote_ne_null _ h
      · split at h
        · split_ifs at h <;> revert h <;> decide
        · exact quote_ne_null _ h
        · rename_i htext
          cases v with
          | scalar s =>
            exact scalar_text_ne_null (fun hs => hv (by rw [hs]))
              (fun x hs => htext x (by rw [hs])) h
          | _ => exact nomatch exists_scalar_of_literal h
  · rintro rfl
    rfl

end Token
mutual

/-- The alternatives of an expression: those of the members of a union, and each of the literals. -/
def alternatives : TypeExpr → List TypeExpr
  | .union members => memberAlternatives members
  | .literals tokens => tokens.map .primitive
  | t => [t]

def memberAlternatives : List TypeExpr → List TypeExpr
  | [] => []
  | t :: ts => alternatives t ++ memberAlternatives ts

end

def parts : TypeExpr → List TypeExpr
  | .array item => [item]
  | .tuple item _ => [item]
  | .shape fields index => fields.map (·.2) ++ index.toList
  | .union members => members
  | .intersection members => members
  | .requiring inner _ => [inner]
  | _ => []

def AdmitsNull (t : TypeExpr) : Prop := null ∈ t.alternatives

def AbsorbsNull (t : TypeExpr) : Prop := t = null ∨ ∃ tokens, t = .literals tokens ∧ "null" ∈ tokens

/-- Some expression inside has null more than once among its alternatives. -/
inductive DoublesNull : TypeExpr → Prop
  | here {t : TypeExpr} : ¬ AtMostOne (· = null) t.alternatives → DoublesNull t
  | inside {t u : TypeExpr} : u ∈ t.parts → DoublesNull u → DoublesNull t

section Alternatives

variable {t u : TypeExpr} {ts : List TypeExpr}

theorem alternatives_union (ts : List TypeExpr) :
    (TypeExpr.union ts).alternatives = ts.flatMap alternatives := by
  rw [alternatives]
  induction ts with
  | nil => rfl
  | cons t ts ih => rw [memberAlternatives, List.flatMap_cons, ih]

theorem alternatives_of_not_isAlternatives (h : t.isAlternatives = false) :
    t.alternatives = [t] := by
  cases t <;> first | rfl | cases h

theorem primitive_eq_null {name : String} : TypeExpr.primitive name = null ↔ name = "null" := by
  rw [null, TypeExpr.primitive.injEq]

theorem admitsNull_literals {tokens : List String} :
    (TypeExpr.literals tokens).AdmitsNull ↔ "null" ∈ tokens := by
  simp [AdmitsNull, alternatives, primitive_eq_null]

theorem admitsNull_union : (TypeExpr.union ts).AdmitsNull ↔ ∃ t ∈ ts, t.AdmitsNull := by
  simp [AdmitsNull, alternatives_union]

theorem admitsNull_of_not_isAlternatives (h : t.isAlternatives = false) :
    t.AdmitsNull ↔ t = null := by
  rw [AdmitsNull, alternatives_of_not_isAlternatives h, List.mem_singleton]
  exact eq_comm

theorem admitsNull_primitive {name : String} :
    (TypeExpr.primitive name).AdmitsNull ↔ name = "null" := by
  rw [admitsNull_of_not_isAlternatives rfl, primitive_eq_null]

theorem AbsorbsNull.admitsNull (h : t.AbsorbsNull) : t.AdmitsNull := by
  rcases h with rfl | ⟨tokens, rfl, hnull⟩
  · exact (admitsNull_of_not_isAlternatives rfl).mpr rfl
  · exact admitsNull_literals.mpr hnull

theorem not_absorbsNull_union : ¬ (TypeExpr.union ts).AbsorbsNull := by
  rintro (h | ⟨_, h, _⟩)
  · cases h
  · cases h

theorem absorbsNull_iff_of_not_union (h : ∀ ts, t ≠ .union ts) : t.AbsorbsNull ↔ t.AdmitsNull := by
  refine ⟨AbsorbsNull.admitsNull, fun hnull => ?_⟩
  cases t with
  | union ts => exact absurd rfl (h ts)
  | literals tokens => exact .inr ⟨tokens, rfl, admitsNull_literals.mp hnull⟩
  | _ => exact .inl ((admitsNull_of_not_isAlternatives rfl).mp hnull)

theorem absorbsNull_literals {tokens : List String} :
    (TypeExpr.literals tokens).AbsorbsNull ↔ "null" ∈ tokens := by
  rw [← admitsNull_literals]
  exact absorbsNull_iff_of_not_union fun _ => nofun

end Alternatives

section Nullable

variable {t : TypeExpr}

theorem nullable_cases (t : TypeExpr) : t.AbsorbsNull ∧ t.nullable = t ∨
    ¬ t.AbsorbsNull ∧ ∃ ts, t.nullable = .union (ts ++ [null]) ∧ (t = .union ts ∨
      (∀ us, t ≠ .union us) ∧ ts = [t]) := by
  by_cases habsorbs : t.AbsorbsNull
  · refine .inl ⟨habsorbs, ?_⟩
    rcases habsorbs with rfl | ⟨tokens, rfl, hmem⟩
    · exact if_pos rfl
    · exact (if_neg nofun).trans (if_pos hmem)
  · refine .inr ⟨habsorbs, ?_⟩
    have hnull : t ≠ null := fun hnull => habsorbs (.inl hnull)
    cases t with
    | literals tokens =>
      have hmem : "null" ∉ tokens := fun hmem => habsorbs (.inr ⟨tokens, rfl, hmem⟩)
      exact ⟨[_], (if_neg hnull).trans (if_neg hmem), .inr ⟨nofun, rfl⟩⟩
    | union ts => exact ⟨ts, if_neg hnull, .inl rfl⟩
    | _ => exact ⟨[_], if_neg hnull, .inr ⟨nofun, rfl⟩⟩

theorem nullable_eq_self_iff : t.nullable = t ↔ t.AbsorbsNull := by
  rcases nullable_cases t with ⟨habsorbs, h⟩ | ⟨hnot, ts, h, hts⟩
  · exact iff_of_true h habsorbs
  · refine iff_of_false (fun heq => ?_) hnot
    rcases hts with rfl | ⟨hunion, -⟩
    · simp [heq] at h
    · exact hunion _ (heq.symm.trans h)

/-- A second null is added to every expression that does not absorb the first. -/
theorem nullable_nullable_eq_iff : t.nullable.nullable = t.nullable ↔ t.AbsorbsNull := by
  rw [nullable_eq_self_iff]
  rcases nullable_cases t with ⟨habsorbs, h⟩ | ⟨hnot, ts, h, -⟩
  · rw [h]
  · rw [h]
    exact iff_of_false not_absorbsNull_union hnot

theorem admitsNull_nullable (t : TypeExpr) : t.nullable.AdmitsNull := by
  rcases nullable_cases t with ⟨habsorbs, h⟩ | ⟨-, ts, h, -⟩
  · rw [h]
    exact habsorbs.admitsNull
  · rw [h, admitsNull_union]
    exact ⟨null, by simp, AbsorbsNull.admitsNull (.inl rfl)⟩

theorem absorbsNull_nullable : t.nullable.AbsorbsNull ↔ t.AbsorbsNull := by
  rw [← nullable_eq_self_iff, nullable_nullable_eq_iff]

end Nullable

section Doubled

variable {t u : TypeExpr} {ts : List TypeExpr}

theorem doublesNull_iff : t.DoublesNull ↔
    ¬ AtMostOne (· = null) t.alternatives ∨ ∃ u ∈ t.parts, u.DoublesNull := by
  constructor
  · rintro (h | ⟨hu, h⟩)
    · exact .inl h
    · exact .inr ⟨_, hu, h⟩
  · rintro (h | ⟨u, hu, h⟩)
    · exact .here h
    · exact .inside hu h

theorem doublesNull_of_not_isAlternatives (h : t.isAlternatives = false) :
    t.DoublesNull ↔ ∃ u ∈ t.parts, u.DoublesNull := by
  rw [doublesNull_iff, alternatives_of_not_isAlternatives h, AtMostOne]
  simp

theorem not_doublesNull_primitive {name : String} : ¬ (TypeExpr.primitive name).DoublesNull := by
  rw [doublesNull_of_not_isAlternatives rfl]
  simp [parts]

theorem doublesNull_literals {tokens : List String} :
    (TypeExpr.literals tokens).DoublesNull ↔ ¬ AtMostOne (· = "null") tokens := by
  rw [doublesNull_iff, alternatives, AtMostOne.map_iff]
  simp [parts, primitive_eq_null]

theorem doublesNull_union : (TypeExpr.union ts).DoublesNull ↔
    ¬ AtMostOne AdmitsNull ts ∨ ∃ t ∈ ts, t.DoublesNull := by
  have hmember (t : TypeExpr) : (∃ a ∈ t.alternatives, a = null) ↔ t.AdmitsNull := by
    simp [AdmitsNull]
  rw [doublesNull_iff, alternatives_union, AtMostOne.flatMap_iff]
  simp only [hmember, parts]
  constructor
  · rintro (h | h)
    · by_cases htwice : ∃ t ∈ ts, ¬ AtMostOne (· = null) t.alternatives
      · obtain ⟨t, ht, htwice⟩ := htwice
        exact .inr ⟨t, ht, .here htwice⟩
      · refine .inl fun hone => h ⟨fun t ht => ?_, hone⟩
        by_contra hnot
        exact htwice ⟨t, ht, hnot⟩
    · exact .inr h
  · rintro (h | h)
    · exact .inl fun hboth => h hboth.2
    · exact .inr h

theorem doublesNull_nullable : t.nullable.DoublesNull ↔
    t.DoublesNull ∨ t.AdmitsNull ∧ ¬ t.AbsorbsNull := by
  rcases nullable_cases t with ⟨habsorbs, h⟩ | ⟨hnot, ts, h, hts⟩
  · rw [h]
    simp [habsorbs]
  · have hnull : null.AdmitsNull := AbsorbsNull.admitsNull (.inl rfl)
    have hunion : (TypeExpr.union (ts ++ [null])).DoublesNull ↔
        (TypeExpr.union ts).DoublesNull ∨ (TypeExpr.union ts).AdmitsNull := by
      have hinside : (∃ u ∈ ts ++ [null], u.DoublesNull) ↔ ∃ u ∈ ts, u.DoublesNull := by
        simp [or_and_right, exists_or, null, not_doublesNull_primitive]
      rw [doublesNull_union, doublesNull_union, admitsNull_union, AtMostOne.concat_iff, hinside,
        and_iff_left hnull, not_and_or, not_not, or_right_comm]
    rw [h, hunion]
    rcases hts with rfl | ⟨hplain, rfl⟩
    · simp [hnot]
    · have hone := mt (absorbsNull_iff_of_not_union hplain).mpr hnot
      simp [doublesNull_union, admitsNull_union, hone, AtMostOne]

end Doubled

end TypeExpr

end ApiBindings
