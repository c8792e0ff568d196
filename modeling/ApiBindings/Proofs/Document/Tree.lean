import ApiBindings.Proofs.Document.Keys
import Mathlib.Data.List.Nodup
import Mathlib.Data.List.Perm.Basic

/-!
Trees: documents whose mappings stand under distinct texts, as all documents of JSON do. Main
statement: what is found under a text does not depend on the order of the entries.
-/

namespace ApiBindings

namespace Entries

structure UnderTexts (es : Entries) : Prop where
  text : ∀ e ∈ es, ∃ name, e.1 = .str name
  nodup : es.keys.Nodup

theorem underTexts_iff {es : Entries} :
    es.UnderTexts ↔ (∀ e ∈ es, e.1.isText = true) ∧ es.keys.Nodup := by
  simp only [Scalar.isText_iff]
  exact ⟨fun h => ⟨h.text, h.nodup⟩, fun h => ⟨h.1, h.2⟩⟩

instance (es : Entries) : Decidable es.UnderTexts := decidable_of_iff _ underTexts_iff.symm

theorem get?_eq_some_iff {es : Entries} (hes : es.keys.Nodup) {name : String} {v : Value} :
    es.get? name = some v ↔ (.str name, v) ∈ es := by
  refine ⟨mem_of_get?, fun hmem => ?_⟩
  induction es with
  | nil => cases hmem
  | cons e rest ih =>
    obtain ⟨k, w⟩ := e
    rw [keys, List.map_cons, List.nodup_cons] at hes
    rw [get?, find?]
    by_cases hk : k = .str name
    · subst hk
      have hfresh : (.str name, v) ∉ rest := fun h => hes.1 (List.mem_map.mpr ⟨_, h, rfl⟩)
      have heq : (Scalar.str name, v) = (.str name, w) :=
        (List.mem_cons.mp hmem).resolve_right hfresh
      rw [if_pos (Scalar.isKey_str.mpr rfl), (Prod.mk.inj heq).2]
    · have hrest : (.str name, v) ∈ rest := by
        refine (List.mem_cons.mp hmem).resolve_left fun heq => hk ?_
        exact (Prod.mk.inj heq).1.symm
      rw [if_neg fun h => hk (Scalar.isKey_str.mp h)]
      exact ih hes.2 hrest

theorem get?_of_perm {es fs : Entries} (h : es.Perm fs) (hes : es.keys.Nodup) (name : String) :
    es.get? name = fs.get? name := by
  have hfs : fs.keys.Nodup := (h.map Prod.fst).nodup hes
  refine Option.ext fun v => ?_
  rw [get?_eq_some_iff hes, get?_eq_some_iff hfs, h.mem_iff]

theorem get?_filter {es : Entries} (hes : es.keys.Nodup) (keep : Value → Bool) (name : String) :
    get? (es.filter fun e => keep e.2) name = (es.get? name).filter keep := by
  have hkept : (keys (es.filter fun e => keep e.2)).Nodup :=
    hes.sublist (List.filter_sublist.map Prod.fst)
  refine Option.ext fun v => ?_
  rw [get?_eq_some_iff hkept, List.mem_filter, Option.filter_eq_some_iff, get?_eq_some_iff hes]

theorem put_of_not_mem {es : Entries} {name : String} (h : .str name ∉ es.keys) (v : Value) :
    es.put (.str name) v = es ++ [(.str name, v)] := by
  induction es with
  | nil => rfl
  | cons e rest ih =>
    obtain ⟨k, w⟩ := e
    rw [keys, List.map_cons, List.mem_cons, not_or] at h
    rw [put, if_neg fun hk => h.1 (Scalar.isKey_str.mp hk).symm, ih h.2, List.cons_append]

end Entries

namespace Value

/-- Every mapping in the value stands under distinct texts. -/
def IsTree (v : Value) : Prop := v.Throughout (fun _ => True) Entries.UnderTexts

theorem isTree_map {label : Option Nat} {es : Entries} :
    (Value.map label es).IsTree ↔ es.UnderTexts ∧ ∀ e ∈ es, e.2.IsTree := by
  simp [IsTree, throughout_map, Entries.Throughout]

theorem isTree_list {items : List Value} : (Value.list items).IsTree ↔ ∀ v ∈ items, v.IsTree :=
  throughout_list

namespace IsTree

variable {v : Value}

theorem members (hv : v.IsTree) : v.members.UnderTexts ∧ ∀ e ∈ v.members, e.2.IsTree := by
  cases v with
  | map label es => exact isTree_map.mp hv
  | _ => exact ⟨⟨nofun, List.nodup_nil⟩, nofun⟩

theorem get (hv : v.IsTree) (name : String) : (v.members.get name).IsTree := by
  rw [Entries.get]
  cases hget : v.members.get? name with
  | none => exact throughout_scalar.mpr trivial
  | some w => exact hv.members.2 _ (Entries.mem_of_get? hget)

end IsTree

/-- A step from a value to one of its parts: the text of a key, or the place in a list. -/
inductive Step where
  | key (name : String)
  | index (n : Nat)
deriving DecidableEq

def Step.text : Step → String
  | .key name => name
  | .index n => Text.ofNat n

def at? (v : Value) : List Step → Option Value
  | [] => some v
  | .key name :: steps =>
    match v with
    | .map _ es => (Entries.get? es name).bind fun w => w.at? steps
    | _ => none
  | .index n :: steps =>
    match v with
    | .list items => items[n]?.bind fun w => w.at? steps
    | _ => none

def pathText : List Step → String
  | [] => ""
  | step :: steps => "/" ++ step.text ++ pathText steps

theorem pathText_singleton (step : Step) : pathText [step] = "/" ++ step.text := by
  rw [pathText, pathText, String.append_empty]

theorem pathText_append (steps more : List Step) :
    pathText (steps ++ more) = pathText steps ++ pathText more := by
  induction steps with
  | nil => rfl
  | cons step steps ih => simp only [List.cons_append, pathText, ih, String.append_assoc]

end Value

end ApiBindings
