import ApiBindings.Proofs.Document.Unshared

/-!
The labels by which the places of a document share their mappings. Main statement: a write through a
label that stands at one place changes this place alone.
-/

namespace ApiBindings

namespace Value

mutual

/-- The labels in a value, each as often as it occurs. -/
def labels : Value → List Nat
  | .list items => itemLabels items
  | .map label es => label.toList ++ entryLabels es
  | .pair a b => labels a ++ labels b
  | _ => []

def itemLabels : List Value → List Nat
  | [] => []
  | v :: vs => labels v ++ itemLabels vs

def entryLabels : List (Scalar × Value) → List Nat
  | [] => []
  | (_, v) :: es => labels v ++ entryLabels es

end

theorem change_of_not_mem {label : Nat} (f : Entries → Entries) {v : Value}
    (h : label ∉ v.labels) : v.change label f = v := by
  induction v using inductionOn with
  | list items ih =>
    rw [labels] at h
    rw [change, changeItems_eq_map]
    have hitems : items.map (change label f) = items := by
      induction items with
      | nil => rfl
      | cons v vs ihvs =>
        rw [itemLabels, List.mem_append, not_or] at h
        rw [List.map_cons, ih v List.mem_cons_self h.1,
          ihvs (fun w hw => ih w (List.mem_cons_of_mem v hw)) h.2]
    rw [hitems]
  | map l es ih =>
    rw [labels, List.mem_append, not_or, Option.mem_toList] at h
    have hentries : changeEntries label f es = es := by
      rw [changeEntries_eq_map]
      obtain ⟨-, h⟩ := h
      induction es with
      | nil => rfl
      | cons e es ihes =>
        obtain ⟨k, v⟩ := e
        rw [entryLabels, List.mem_append, not_or] at h
        rw [List.map_cons, ih (k, v) List.mem_cons_self h.1,
          ihes (fun e he => ih e (List.mem_cons_of_mem _ he)) h.2]
    rw [change, if_neg h.1, hentries]
  | pair a b iha ihb =>
    rw [labels, List.mem_append, not_or] at h
    rw [change, iha h.1, ihb h.2]
  | _ => rw [change]

end Value

namespace Entries

open Value (entryLabels)

variable {es : Entries} {label : Nat} {path rest : List Scalar}

theorem mem_labels_of_find? {key : Scalar} {v : Value} (hv : es.find? key = some v)
    (hlabel : label ∈ v.labels) : label ∈ entryLabels es := by
  induction es with
  | nil => cases hv
  | cons e es ih =>
    obtain ⟨k, w⟩ := e
    rw [find?] at hv
    rw [entryLabels, List.mem_append]
    split_ifs at hv
    · cases hv
      exact .inl hlabel
    · exact .inr (ih hv)

/-- The last label of a path stands behind its first key, or it is the one under this key. -/
theorem lastLabel?_cons {key : Scalar} (h : es.lastLabel? (key :: path) = some (label, rest)) :
    ∃ (l : Option Nat) (inner : Entries), es.find? key = some (.map l inner) ∧
      (inner.lastLabel? path = some (label, rest) ∨
        inner.lastLabel? path = none ∧ l = some label ∧ rest = path) := by
  rw [lastLabel?] at h
  split at h
  · rename_i l inner hfound
    refine ⟨l, inner, hfound, ?_⟩
    split at h
    · rename_i found hinner
      exact .inl (hinner.trans h)
    · rename_i hinner
      obtain ⟨l', rfl, he⟩ := Option.map_eq_some_iff.mp h
      cases he
      exact .inr ⟨hinner, rfl, rfl⟩
  · cases h

theorem mem_labels_of_lastLabel? (h : es.lastLabel? path = some (label, rest)) :
    label ∈ entryLabels es := by
  induction path generalizing es with
  | nil => cases h
  | cons key tail ih =>
    obtain ⟨l, inner, hfound, hlast⟩ := lastLabel?_cons h
    refine mem_labels_of_find? hfound ?_
    rw [Value.labels, List.mem_append]
    rcases hlast with hinner | ⟨-, rfl, -⟩
    · exact .inr (ih hinner)
    · exact .inl (Option.mem_toList.mpr rfl)

theorem find?_changeEntries (es : Entries) (label : Nat) (f : Entries → Entries) (key : Scalar) :
    Entries.find? (Value.changeEntries label f es) key =
      (es.find? key).map (Value.change label f) := by
  induction es with
  | nil => rfl
  | cons e es ih =>
    obtain ⟨k, v⟩ := e
    rw [Value.changeEntries, find?, find?, ih]
    split_ifs
    · rfl
    · rfl

theorem changeEntries_of_not_mem (f : Entries → Entries) (h : label ∉ entryLabels es) :
    Value.changeEntries label f es = es := by
  have hmap := Value.change_of_not_mem f (v := .map none es) (by simpa [Value.labels] using h)
  rw [Value.change, if_neg (Option.some_ne_none label).symm] at hmap
  exact (Value.map.inj hmap).2

/-- What is changed wherever the last label of the path stands is changed at the end of the path
only, if the label stands there only. -/
theorem changeEntries_eq_modifyAt (h : es.lastLabel? path = some (label, rest))
    (hone : (entryLabels es).count label ≤ 1) (f : Entries → Entries) :
    Value.changeEntries label (modifyAt · rest f) es = es.modifyAt path f := by
  induction path generalizing es with
  | nil => cases h
  | cons key tail ihpath =>
    induction es with
    | nil => cases h
    | cons e es ihes =>
      obtain ⟨k, v⟩ := e
      rw [entryLabels, List.count_append] at hone
      rw [Value.changeEntries, modifyAt, adjust]
      split_ifs with hkey
      · obtain ⟨l, inner, hfound, hlast⟩ := lastLabel?_cons h
        obtain rfl : v = .map l inner := by simpa [find?, hkey] using hfound
        rw [Value.labels, List.count_append] at hone
        rcases hlast with hinner | ⟨-, rfl, rfl⟩
        · -- the label is one inside, so it is neither this mapping's nor in the rest
          have hpos := List.count_pos_iff.mpr (mem_labels_of_lastLabel? hinner)
          have hrest : label ∉ entryLabels es := List.count_eq_zero.mp (by omega)
          have hl : label ∉ l.toList := List.count_eq_zero.mp (by omega)
          rw [Option.mem_toList] at hl
          rw [changeEntries_of_not_mem _ hrest, Value.change, if_neg hl, ihpath hinner (by omega)]
        · rw [Option.toList_some, List.count_singleton_self] at hone
          have hrest : label ∉ entryLabels es := List.count_eq_zero.mp (by omega)
          rw [changeEntries_of_not_mem _ hrest, Value.change, if_pos rfl]
      · have hlast : lastLabel? es (key :: tail) = some (label, rest) := by
          simpa [lastLabel?, find?, hkey] using h
        have hpos := List.count_pos_iff.mpr (mem_labels_of_lastLabel? hlast)
        have hv : label ∉ v.labels := List.count_eq_zero.mp (by omega)
        rw [Value.change_of_not_mem _ hv, ihes hlast (by omega)]
        rfl

/-- A write that meets no label, or one that stands at a single place, is seen at the end of its
path only. -/
theorem write_eq_modifyAt
    (h : ∀ label rest, es.lastLabel? path = some (label, rest) → (entryLabels es).count label ≤ 1)
    (f : Entries → Entries) : es.write path f = es.modifyAt path f := by
  rw [write]
  split
  · rename_i label rest hlast
    exact changeEntries_eq_modifyAt hlast (h label rest hlast) f
  · rfl

section Sublist

theorem labels_put {v : Value} (hv : v.labels = []) (es : Entries) (key : Scalar) :
    (entryLabels (es.put key v)).Sublist (entryLabels es) := by
  induction es with
  | nil => simp [put, entryLabels, hv]
  | cons e es ih =>
    obtain ⟨k, w⟩ := e
    rw [put]
    split_ifs
    · rw [entryLabels, entryLabels, hv, List.nil_append]
      exact List.sublist_append_right _ _
    · rw [entryLabels, entryLabels]
      exact ih.append_left _

theorem labels_adjust {f : Value → Value} (hf : ∀ v, (f v).labels.Sublist v.labels) (es : Entries)
    (key : Scalar) : (entryLabels (es.adjust key f)).Sublist (entryLabels es) := by
  induction es with
  | nil => exact .refl _
  | cons e es ih =>
    obtain ⟨k, w⟩ := e
    rw [adjust]
    split_ifs
    · rw [entryLabels, entryLabels]
      exact (hf w).append_right _
    · rw [entryLabels, entryLabels]
      exact ih.append_left _

theorem labels_modifyAt {f : Entries → Entries}
    (hf : ∀ es, (entryLabels (f es)).Sublist (entryLabels es)) (es : Entries) (path : List Scalar) :
    (entryLabels (es.modifyAt path f)).Sublist (entryLabels es) := by
  induction path generalizing es with
  | nil => exact hf es
  | cons key rest ih =>
    rw [modifyAt]
    refine labels_adjust (fun v => ?_) es key
    cases v with
    | map l inner =>
      rw [Value.labels, Value.labels]
      exact (ih inner).append_left _
    | _ => exact .refl _

end Sublist

end Entries

end ApiBindings
