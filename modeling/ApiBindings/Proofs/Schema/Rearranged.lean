import ApiBindings.Proofs.Document.Tree
import ApiBindings.Proofs.Schema.Part
import Mathlib.Data.Option.Basic

/-!
Schemas with their keywords in another order, at any depth. Main statements: what stands under a
keyword is the same in both orders, or a schema and its rearrangement; and a schema looks the same
from outside in both.
-/

namespace ApiBindings.Schema

def schemaKeywords : List String :=
  ["items", "additionalProperties", "properties"] ++ compositionKeys

mutual

/-- The second schema is the first with its keywords in another order, and so are the schemas in it.
Of properties only those that `moves` relates stand in another order. -/
inductive Rearranged (moves : Entries → Entries → Prop) : Value → Value → Prop
  | refl (v : Value) : Rearranged moves v v
  | node {label : Option Nat} {es fs gs : Entries} : List.Forall₂ (Keyword moves) es fs →
    fs.Perm gs → Rearranged moves (.map label es) (.map label gs)

inductive Keyword (moves : Entries → Entries → Prop) : Scalar × Value → Scalar × Value → Prop
  | same (e : Scalar × Value) : Keyword moves e e
  | schema {name : String} {v w : Value} : name = "items" ∨ name = "additionalProperties" →
    Rearranged moves v w → Keyword moves (.str name, v) (.str name, w)
  | members {name : String} {vs ws : List Value} : name ∈ compositionKeys →
    List.Forall₂ (Rearranged moves) vs ws →
      Keyword moves (.str name, .list vs) (.str name, .list ws)
  | properties {label : Option Nat} {ps qs : Entries} : List.Forall₂ (Property moves) ps qs →
    Keyword moves (.str "properties", .map label ps) (.str "properties", .map label qs)
  | moved {label : Option Nat} {ps qs : Entries} : moves ps qs →
    Keyword moves (.str "properties", .map label ps) (.str "properties", .map label qs)

inductive Property (moves : Entries → Entries → Prop) : Scalar × Value → Scalar × Value → Prop
  | schema {key : Scalar} {v w : Value} : Rearranged moves v w → Property moves (key, v) (key, w)

end

variable {moves : Entries → Entries → Prop}

namespace Keyword

variable {e f : Scalar × Value} {name : String} {v w : Value}

theorem key_eq (h : Keyword moves e f) : e.1 = f.1 := by
  cases h <;> rfl

theorem eq_of_plain (h : Keyword moves (.str name, v) (.str name, w))
    (hname : name ∉ schemaKeywords) : v = w := by
  simp only [schemaKeywords, List.cons_append, List.nil_append, List.mem_cons, not_or] at hname
  cases h with
  | same => rfl
  | schema hschema => exact absurd hschema (by simp [hname])
  | members hmember => exact absurd hmember hname.2.2.2
  | properties => exact absurd rfl hname.2.2.1
  | moved => exact absurd rfl hname.2.2.1

theorem rearranged (h : Keyword moves (.str name, v) (.str name, w))
    (hname : name = "items" ∨ name = "additionalProperties") : Rearranged moves v w := by
  cases h with
  | same => exact .refl v
  | schema _ h => exact h
  | members hmember => rcases hname with rfl | rfl <;> simp at hmember
  | properties => simp at hname
  | moved => simp at hname

theorem members_cases (h : Keyword moves (.str name, v) (.str name, w))
    (hname : name ∈ compositionKeys) :
    w = v ∨ ∃ vs ws, v = .list vs ∧ w = .list ws ∧ List.Forall₂ (Rearranged moves) vs ws := by
  cases h with
  | same => exact .inl rfl
  | schema hschema => rcases hschema with rfl | rfl <;> simp at hname
  | members _ h => exact .inr ⟨_, _, rfl, rfl, h⟩
  | properties => simp at hname
  | moved => simp at hname

theorem properties_cases (h : Keyword moves (.str "properties", v) (.str "properties", w)) :
    w = v ∨ ∃ label ps qs, v = .map label ps ∧ w = .map label qs ∧
      (List.Forall₂ (Property moves) ps qs ∨ moves ps qs) := by
  cases h with
  | same => exact .inl rfl
  | schema h => simp at h
  | members h => simp at h
  | properties h => exact .inr ⟨_, _, _, rfl, rfl, .inl h⟩
  | moved h => exact .inr ⟨_, _, _, rfl, rfl, .inr h⟩

end Keyword

def KeywordsAlike (moves : Entries → Entries → Prop) (es gs : Entries) : Prop :=
  ∀ name, Option.Rel (fun v w => Keyword moves (.str name, v) (.str name, w))
    (es.get? name) (gs.get? name)

theorem keywordsAlike_of_forall₂ {es fs : Entries} (h : List.Forall₂ (Keyword moves) es fs) :
    KeywordsAlike moves es fs := by
  intro name
  induction h with
  | nil => exact .none
  | @cons e f es fs hef _ ih =>
    obtain ⟨k, v⟩ := e
    obtain ⟨k', w⟩ := f
    obtain rfl : k = k' := hef.key_eq
    rw [Entries.get?, Entries.get?, Entries.find?, Entries.find?]
    split_ifs with hk
    · rw [Scalar.isKey_str.mp hk] at hef
      exact .some hef
    · exact ih

theorem keys_eq_of_forall₂ {es fs : Entries} (h : List.Forall₂ (Keyword moves) es fs) :
    es.keys = fs.keys :=
  map_eq_of_forall₂ h fun _ _ hef => hef.key_eq

theorem keywordsAlike_of_rearranged {es fs gs : Entries} (hes : es.UnderTexts)
    (h : List.Forall₂ (Keyword moves) es fs) (hperm : fs.Perm gs) : KeywordsAlike moves es gs := by
  intro name
  have hfs : fs.keys.Nodup := keys_eq_of_forall₂ h ▸ hes.nodup
  rw [← Entries.get?_of_perm hperm hfs name]
  exact keywordsAlike_of_forall₂ h name

namespace KeywordsAlike

variable {es gs : Entries} (h : KeywordsAlike moves es gs)
include h

theorem get?_cases (name : String) : es.get? name = none ∧ gs.get? name = none ∨
    ∃ v w, es.get? name = some v ∧ gs.get? name = some w ∧
      Keyword moves (.str name, v) (.str name, w) := by
  have hname := h name
  cases hv : es.get? name <;> cases hw : gs.get? name <;> rw [hv, hw] at hname <;> cases hname
  · exact .inl ⟨rfl, rfl⟩
  · exact .inr ⟨_, _, rfl, rfl, by assumption⟩

theorem keyword (name : String) :
    Keyword moves (.str name, es.get name) (.str name, gs.get name) := by
  rw [Entries.get, Entries.get]
  obtain ⟨hv, hw⟩ | ⟨v, w, hv, hw, hkeyword⟩ := h.get?_cases name
  · rw [hv, hw]
    exact .same _
  · rw [hv, hw]
    exact hkeyword

theorem get_eq (name : String) (hname : name ∉ schemaKeywords) : gs.get name = es.get name :=
  ((h.keyword name).eq_of_plain hname).symm

theorem reference?_eq : reference? gs = reference? es := by
  rw [reference?, reference?, h.get_eq "$ref" (by decide)]

theorem isFilled_eq (key : String) (hkey : key ∈ compositionKeys) :
    (gs.get key).isFilled = (es.get key).isFilled := by
  obtain heq | ⟨vs, ws, hv, hw, hmembers⟩ := (h.keyword key).members_cases hkey
  · rw [heq]
  · rw [hv, hw]
    cases hmembers <;> rfl

theorem isNull_eq : ((gs.get "properties") matches .scalar .null) =
    ((es.get "properties") matches .scalar .null) := by
  obtain heq | ⟨label, ps, qs, hv, hw, -⟩ := (h.keyword "properties").properties_cases
  · rw [heq]
  · rw [hv, hw]

theorem isComposition_eq : isComposition gs = isComposition es := by
  rw [isComposition, isComposition, h.isFilled_eq "allOf" (by simp),
    h.isFilled_eq "anyOf" (by simp), h.isFilled_eq "oneOf" (by simp)]

end KeywordsAlike

structure LooksAlike (v w : Value) : Prop where
  null : w = .null ↔ v = .null
  given : isGiven w = isGiven v
  anything : admitsAnything w = admitsAnything v
  description : inlineDescription w = inlineDescription v

theorem LooksAlike.refl (v : Value) : LooksAlike v v := ⟨.rfl, rfl, rfl, rfl⟩

theorem looksAlike_of_keywordsAlike {label : Option Nat} {es gs : Entries}
    (h : KeywordsAlike moves es gs) (hlength : es.length = gs.length) :
    LooksAlike (.map label es) (.map label gs) where
  null := by simp
  given := rfl
  anything := by
    cases es <;> cases gs <;> first | rfl | cases hlength
  description := by
    rw [inlineDescription, inlineDescription, h.reference?_eq,
      h.get_eq "description" (by decide)]

theorem Rearranged.cases_of_isTree {v w : Value} (h : Rearranged moves v w) (hv : v.IsTree) :
    w = v ∨ ∃ label es gs, v = .map label es ∧ w = .map label gs ∧ KeywordsAlike moves es gs ∧
      es.length = gs.length := by
  cases h with
  | refl => exact .inl rfl
  | node hes hperm =>
    have htexts := (Value.throughout_map.mp hv).1
    have hlength := hes.length_eq.trans hperm.length_eq
    exact .inr ⟨_, _, _, rfl, rfl, keywordsAlike_of_rearranged htexts hes hperm, hlength⟩

theorem Rearranged.looksAlike {v w : Value} (h : Rearranged moves v w) (hv : v.IsTree) :
    LooksAlike v w := by
  rcases h.cases_of_isTree hv with rfl | ⟨label, es, gs, rfl, rfl, halike, hlength⟩
  · exact .refl w
  · exact looksAlike_of_keywordsAlike halike hlength

end ApiBindings.Schema
