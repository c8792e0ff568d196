import ApiBindings.Proofs.Document.Entries
import ApiBindings.Proofs.Success

/-!
Documents in which no two places share a mapping, as all are that JSON writes. Main statement: a
write to such a document changes the one place that it goes to.
-/

namespace ApiBindings

namespace Value

mutual

def isUnlabelled : Value → Bool
  | .list items => areUnlabelled items
  | .map label es => label.isNone && entriesUnlabelled es
  | .pair a b => isUnlabelled a && isUnlabelled b
  | _ => true

def areUnlabelled : List Value → Bool
  | [] => true
  | v :: vs => isUnlabelled v && areUnlabelled vs

def entriesUnlabelled : List (Scalar × Value) → Bool
  | [] => true
  | (_, v) :: es => isUnlabelled v && entriesUnlabelled es

end

theorem areUnlabelled_iff {vs : List Value} :
    areUnlabelled vs = true ↔ ∀ v ∈ vs, v.isUnlabelled = true := by
  induction vs with
  | nil => simp [areUnlabelled]
  | cons v vs ih => simp [areUnlabelled, ih]

theorem entriesUnlabelled_iff {es : Entries} :
    entriesUnlabelled es = true ↔ ∀ e ∈ es, e.2.isUnlabelled = true := by
  induction es with
  | nil => simp [entriesUnlabelled]
  | cons e es ih => simp [entriesUnlabelled, ih]

theorem isUnlabelled_map {label : Option Nat} {es : Entries} :
    (Value.map label es).isUnlabelled = true ↔
      label = none ∧ ∀ e ∈ es, e.2.isUnlabelled = true := by
  rw [isUnlabelled, Bool.and_eq_true, entriesUnlabelled_iff, Option.isNone_iff_eq_none]

theorem isUnlabelled_members {v : Value} (h : v.isUnlabelled = true) :
    ∀ e ∈ v.members, e.2.isUnlabelled = true := by
  cases v with
  | map label es => exact (isUnlabelled_map.mp h).2
  | _ =>
    intro e he
    cases he

theorem isUnlabelled_elements {v : Value} {items : List Value} (h : v.isUnlabelled = true)
    (he : v.elements = .ok items) : ∀ w ∈ items, w.isUnlabelled = true := by
  have hscalars {α : Type} (xs : List α) (f : α → Scalar) :
      ∀ w ∈ xs.map fun x => Value.scalar (f x), w.isUnlabelled = true := by
    intro w hw
    obtain ⟨x, -, rfl⟩ := List.mem_map.mp hw
    rfl
  unfold elements at he
  split at he
  · cases he
    rw [isUnlabelled] at h
    exact areUnlabelled_iff.mp h
  · cases he
    exact hscalars _ _
  · cases he
    exact hscalars _ _
  · cases he
    rw [isUnlabelled, Bool.and_eq_true] at h
    simp [h.1, h.2]
  · cases he
    exact hscalars _ _
  · cases he
    exact hscalars _ _
  · cases he

end Value

namespace Entries

def Unlabelled (es : Entries) : Prop := ∀ e ∈ es, e.2.isUnlabelled = true

variable {es : Entries} {key : Scalar} {v : Value}

theorem Unlabelled.find? (h : es.Unlabelled) (hv : es.find? key = some v) :
    v.isUnlabelled = true := by
  obtain ⟨k, hk⟩ := exists_mem_of_find? hv
  exact h _ hk

theorem Unlabelled.get (h : es.Unlabelled) (key : String) : (es.get key).isUnlabelled = true := by
  rw [Entries.get]
  cases hv : es.get? key with
  | none => rfl
  | some v => exact h.find? hv

theorem Unlabelled.put (h : es.Unlabelled) (hv : v.isUnlabelled = true) (key : Scalar) :
    (es.put key v).Unlabelled := by
  intro e he
  rcases mem_put he with he | he
  · exact h e he
  · rwa [he]

theorem Unlabelled.adjust {f : Value → Value} (h : es.Unlabelled)
    (hf : ∀ v, v.isUnlabelled = true → (f v).isUnlabelled = true) (key : Scalar) :
    (es.adjust key f).Unlabelled := by
  have hall := forall₂_adjust (R := fun v w => v.isUnlabelled = true → w.isUnlabelled = true)
    (fun _ hv => hv) hf es key
  intro e he
  obtain ⟨e', he', -, hr⟩ := exists_left_of_forall₂ hall he
  exact hr (h e' he')

theorem Unlabelled.modifyAt {f : Entries → Entries} (h : es.Unlabelled)
    (hf : ∀ es : Entries, es.Unlabelled → (f es).Unlabelled) (path : List Scalar) :
    (es.modifyAt path f).Unlabelled := by
  induction path generalizing es with
  | nil => exact hf es h
  | cons key rest ih =>
    rw [Entries.modifyAt]
    refine h.adjust (fun v hv => ?_) key
    split
    · obtain ⟨hl, hes⟩ := Value.isUnlabelled_map.mp hv
      exact Value.isUnlabelled_map.mpr ⟨hl, ih hes⟩
    · exact hv

theorem Unlabelled.lastLabel?_eq_none (h : es.Unlabelled) (path : List Scalar) :
    es.lastLabel? path = none := by
  induction path generalizing es with
  | nil => rfl
  | cons key rest ih =>
    rw [lastLabel?]
    split
    · rename_i label inner hfound
      obtain ⟨rfl, hinner⟩ := Value.isUnlabelled_map.mp (h.find? hfound)
      rw [ih hinner]
      rfl
    · rfl

/-- What is written at a path is seen there only. -/
theorem Unlabelled.write_eq (h : es.Unlabelled) (path : List Scalar) (f : Entries → Entries) :
    es.write path f = es.modifyAt path f := by
  rw [write, h.lastLabel?_eq_none]

theorem Unlabelled.ofList {fs : List (Scalar × Value)} (h : ∀ e ∈ fs, e.2.isUnlabelled = true) :
    (Entries.ofList fs).Unlabelled := by
  have hall := @forall_ofList fs (fun _ => True) (·.isUnlabelled = true)
    fun e he => ⟨trivial, h e he⟩
  exact fun e he => (hall e he).2

theorem Unlabelled.toEntries (hv : v.isUnlabelled = true) (h : v.toEntries = .ok es) :
    es.Unlabelled := by
  unfold Value.toEntries at h
  split at h
  · cases h
    exact (Value.isUnlabelled_map.mp hv).2
  · obtain ⟨items, hitems, h⟩ := bind_eq_ok.mp h
    obtain ⟨entries, hentries, h⟩ := bind_eq_ok.mp h
    cases pure_eq_ok.mp h
    refine .ofList fun e he => ?_
    obtain ⟨item, hitem, hentry⟩ := exists_left_of_forall₂ (mapM_eq_ok.mp hentries) he
    have hlabels := Value.isUnlabelled_elements hv hitems item hitem
    obtain ⟨parts, hparts, hentry⟩ := bind_eq_ok.mp hentry
    split at hentry
    · obtain ⟨k, -, hentry⟩ := bind_eq_ok.mp hentry
      cases pure_eq_ok.mp hentry
      exact Value.isUnlabelled_elements hlabels hparts _ (by simp)
    · cases hentry

end Entries

end ApiBindings
