import ApiBindings.Proofs.Document.Entries
import ApiBindings.Proofs.Success

/-!
Conditions on all scalars and all mappings of a document. Main statement: a condition that does not
look inside of the values of a mapping survives a write of collections, wherever the document shares
the place that is written to.
-/

namespace ApiBindings

namespace Value

mutual

/-- Every scalar in the value satisfies `P`, and the entries of every mapping satisfy `Q`. -/
def Throughout (P : Scalar → Prop) (Q : Entries → Prop) : Value → Prop
  | .scalar s => P s
  | .list items => ItemsThroughout P Q items
  | .map _ es => Q es ∧ EntriesThroughout P Q es
  | .set ms => ∀ m ∈ ms, P m
  | .pair a b => Throughout P Q a ∧ Throughout P Q b

def ItemsThroughout (P : Scalar → Prop) (Q : Entries → Prop) : List Value → Prop
  | [] => True
  | v :: vs => Throughout P Q v ∧ ItemsThroughout P Q vs

def EntriesThroughout (P : Scalar → Prop) (Q : Entries → Prop) : List (Scalar × Value) → Prop
  | [] => True
  | (k, v) :: es => (P k ∧ Throughout P Q v) ∧ EntriesThroughout P Q es

end

@[elab_as_elim]
theorem inductionOn {motive : Value → Prop} (scalar : ∀ s, motive (.scalar s))
    (list : ∀ items, (∀ v ∈ items, motive v) → motive (.list items))
    (map : ∀ label (es : Entries), (∀ e ∈ es, motive e.2) → motive (.map label es))
    (set : ∀ ms, motive (.set ms))
    (pair : ∀ a b, motive a → motive b → motive (.pair a b)) : ∀ v, motive v
  | .scalar s => scalar s
  | .list items => list items fun v hv =>
    have : sizeOf v < sizeOf items := List.sizeOf_lt_of_mem hv
    inductionOn scalar list map set pair v
  | .map label es => map label es fun e he =>
    have : sizeOf e.2 < sizeOf es := by
      have hmem := List.sizeOf_lt_of_mem he
      obtain ⟨k, v⟩ := e
      simp only [Prod.mk.sizeOf_spec] at hmem ⊢
      omega
    inductionOn scalar list map set pair e.2
  | .set ms => set ms
  | .pair a b => pair a b (inductionOn scalar list map set pair a)
    (inductionOn scalar list map set pair b)

/-- Values of one kind. Scalars are of one kind only if they are the same. -/
def SameKind : Value → Value → Prop
  | .scalar a, .scalar b => a = b
  | .list _, .list _ => True
  | .map .., .map .. => True
  | .set _, .set _ => True
  | .pair .., .pair .. => True
  | _, _ => False

theorem SameKind.refl (v : Value) : v.SameKind v := by
  cases v <;> simp [SameKind]

theorem SameKind.eq_scalar {v : Value} {s : Scalar} (h : v.SameKind (.scalar s)) :
    v = .scalar s := by
  cases v with
  | scalar a => exact congrArg Value.scalar h
  | _ => cases h

theorem changeItems_eq_map (label : Nat) (f : Entries → Entries) (items : List Value) :
    changeItems label f items = items.map (change label f) := by
  induction items with
  | nil => rfl
  | cons v vs ih => rw [changeItems, ih, List.map_cons]

theorem changeEntries_eq_map (label : Nat) (f : Entries → Entries) (es : Entries) :
    changeEntries label f es = es.map fun e => (e.1, e.2.change label f) := by
  induction es with
  | nil => rfl
  | cons e es ih => rw [changeEntries, ih, List.map_cons]

theorem sameKind_change (label : Nat) (f : Entries → Entries) (v : Value) :
    v.SameKind (v.change label f) := by
  cases v with
  | map l es =>
    rw [change]
    split_ifs <;> simp [SameKind]
  | _ => simp [SameKind, change]

/-- A condition that the parts of a document have as well, and that a write of collections keeps:
of the values in a mapping it sees no more than their kinds. -/
structure Lasting (P : Scalar → Prop) (Q : Entries → Prop) : Prop where
  null : P .null
  char : ∀ s : String, P (.str s) → ∀ c ∈ s.toList, P (.str (String.ofList [c]))
  byte : ∀ bs : List UInt8, P (.bytes bs) → ∀ b ∈ bs, P (.int b.toNat)
  empty : Q []
  put : ∀ es key v, Q es → (∀ s, v ≠ .scalar s) → Q (Entries.put es key v)
  alike : ∀ es fs, List.Forall₂ (fun e f => e.1 = f.1 ∧ e.2.SameKind f.2) es fs → Q es → Q fs

variable {P : Scalar → Prop} {Q : Entries → Prop}

theorem itemsThroughout_iff {vs : List Value} :
    ItemsThroughout P Q vs ↔ ∀ v ∈ vs, v.Throughout P Q := by
  induction vs with
  | nil => simp [ItemsThroughout]
  | cons v vs ih => simp [ItemsThroughout, ih]

theorem entriesThroughout_iff {es : Entries} :
    EntriesThroughout P Q es ↔ ∀ e ∈ es, P e.1 ∧ e.2.Throughout P Q := by
  induction es with
  | nil => simp [EntriesThroughout]
  | cons e es ih => simp [EntriesThroughout, ih]

end Value

namespace Entries

def Throughout (P : Scalar → Prop) (Q : Entries → Prop) (es : Entries) : Prop :=
  Q es ∧ ∀ e ∈ es, P e.1 ∧ e.2.Throughout P Q

end Entries

namespace Value

variable {P : Scalar → Prop} {Q : Entries → Prop} {v : Value}

theorem throughout_map {label : Option Nat} {es : Entries} :
    (Value.map label es).Throughout P Q ↔ es.Throughout P Q := by
  rw [Throughout, entriesThroughout_iff, Entries.Throughout]

theorem throughout_list {items : List Value} :
    (Value.list items).Throughout P Q ↔ ∀ v ∈ items, v.Throughout P Q := by
  rw [Throughout, itemsThroughout_iff]

theorem throughout_scalar {s : Scalar} : (Value.scalar s).Throughout P Q ↔ P s := by
  rw [Throughout]

theorem Throughout.mono {P' : Scalar → Prop} {Q' : Entries → Prop} (h : v.Throughout P Q)
    (hP : ∀ s, P s → P' s) (hQ : ∀ es, Q es → Q' es) : v.Throughout P' Q' := by
  induction v using inductionOn with
  | scalar s => exact throughout_scalar.mpr (hP s (throughout_scalar.mp h))
  | list items ih =>
    exact throughout_list.mpr fun v hv => ih v hv (throughout_list.mp h v hv)
  | map label es ih =>
    obtain ⟨hes, hall⟩ := throughout_map.mp h
    exact throughout_map.mpr ⟨hQ es hes, fun e he => ⟨hP e.1 (hall e he).1, ih e he (hall e he).2⟩⟩
  | set ms =>
    rw [Throughout] at h ⊢
    exact fun s hs => hP s (h s hs)
  | pair a b iha ihb =>
    rw [Throughout] at h ⊢
    exact ⟨iha h.1, ihb h.2⟩

theorem throughout_trivial (v : Value) : v.Throughout (fun _ => True) fun _ => True := by
  induction v using inductionOn with
  | scalar s => exact throughout_scalar.mpr trivial
  | list items ih => exact throughout_list.mpr ih
  | map label es ih => exact throughout_map.mpr ⟨trivial, fun e he => ⟨trivial, ih e he⟩⟩
  | set ms =>
    rw [Throughout]
    exact fun _ _ => trivial
  | pair a b iha ihb =>
    rw [Throughout]
    exact ⟨iha, ihb⟩

theorem lasting_trivial : Lasting (fun _ => True) fun _ => True where
  null := trivial
  char _ _ _ _ := trivial
  byte _ _ _ _ := trivial
  empty := trivial
  put _ _ _ _ _ := trivial
  alike _ _ _ _ := trivial

variable (hlasting : Lasting P Q)
include hlasting

theorem Throughout.members (h : v.Throughout P Q) : v.members.Throughout P Q := by
  cases v with
  | map label es => exact throughout_map.mp h
  | _ => exact ⟨hlasting.empty, fun _ he => nomatch he⟩

theorem Throughout.elements {items : List Value} (h : v.Throughout P Q)
    (he : v.elements = .ok items) : ∀ w ∈ items, w.Throughout P Q := by
  unfold Value.elements at he
  split at he
  · cases he
    exact throughout_list.mp h
  · cases he
    simp only [List.mem_map]
    rintro w ⟨e, he, rfl⟩
    exact throughout_scalar.mpr ((throughout_map.mp h).2 e he).1
  · cases he
    simp only [List.mem_map]
    rintro w ⟨m, hm, rfl⟩
    rw [Throughout] at h
    exact throughout_scalar.mpr (h m hm)
  · cases he
    rw [Throughout] at h
    simp [h.1, h.2]
  · cases he
    simp only [List.mem_map]
    rintro w ⟨c, hc, rfl⟩
    exact throughout_scalar.mpr (hlasting.char _ (throughout_scalar.mp h) c hc)
  · cases he
    simp only [List.mem_map]
    rintro w ⟨b, hb, rfl⟩
    exact throughout_scalar.mpr (hlasting.byte _ (throughout_scalar.mp h) b hb)
  · cases he

theorem Throughout.toEntries {es : Entries} (h : v.Throughout P Q) (he : v.toEntries = .ok es) :
    ∀ e ∈ es, P e.1 ∧ e.2.Throughout P Q := by
  unfold Value.toEntries at he
  split at he
  · cases he
    exact (throughout_map.mp h).2
  · obtain ⟨items, hitems, he⟩ := bind_eq_ok.mp he
    obtain ⟨entries, hentries, he⟩ := bind_eq_ok.mp he
    cases pure_eq_ok.mp he
    have hpairs : ∀ e ∈ entries, P e.1 ∧ e.2.Throughout P Q := by
      intro e he
      obtain ⟨item, hitem, hentry⟩ := exists_left_of_forall₂ (mapM_eq_ok.mp hentries) he
      obtain ⟨parts, hparts, hentry⟩ := bind_eq_ok.mp hentry
      have hall := (h.elements hlasting hitems item hitem).elements hlasting hparts
      split at hentry
      · rename_i key value
        obtain ⟨k, hkey, hentry⟩ := bind_eq_ok.mp hentry
        cases pure_eq_ok.mp hentry
        refine ⟨?_, hall value (by simp)⟩
        have hk := hall key (by simp)
        rw [expectKey_ok hkey] at hk
        exact throughout_scalar.mp hk
      · cases hentry
    exact Entries.forall_ofList hpairs

end Value

namespace Entries

open Value (Lasting)

variable {P : Scalar → Prop} {Q : Entries → Prop} {es : Entries} {key : Scalar} {v : Value}

theorem Throughout.find? (h : es.Throughout P Q) (hv : es.find? key = some v) :
    v.Throughout P Q := by
  obtain ⟨k, hk⟩ := exists_mem_of_find? hv
  exact (h.2 _ hk).2

theorem get_of_alike {fs : Entries} {name : String} {s : Scalar}
    (h : List.Forall₂ (fun e f => e.1 = f.1 ∧ e.2.SameKind f.2) es fs)
    (hs : fs.get name = .scalar s) : es.get name = .scalar s := by
  induction h with
  | nil => exact hs
  | @cons e f _ _ hef _ ih =>
    obtain ⟨k, v⟩ := e
    obtain ⟨l, w⟩ := f
    obtain ⟨rfl, hkind⟩ := hef
    simp only [get, get?, find?] at hs ih ⊢
    split_ifs at hs ⊢
    · rw [Option.getD_some] at hs ⊢
      exact Value.SameKind.eq_scalar (hs ▸ hkind)
    · exact ih hs

theorem throughout_trivial (es : Entries) : es.Throughout (fun _ => True) fun _ => True :=
  ⟨trivial, fun e _ => ⟨trivial, e.2.throughout_trivial⟩⟩

variable (hlasting : Lasting P Q)
include hlasting

theorem throughout_nil : Entries.Throughout P Q [] :=
  ⟨hlasting.empty, fun _ he => nomatch he⟩

theorem Throughout.get (h : es.Throughout P Q) (key : String) : (es.get key).Throughout P Q := by
  rw [Entries.get]
  cases hv : es.get? key with
  | none => exact Value.throughout_scalar.mpr hlasting.null
  | some v => exact h.find? hv

theorem Throughout.put (h : es.Throughout P Q) (hkey : P key) (hv : v.Throughout P Q)
    (hkind : ∀ s, v ≠ .scalar s) : (es.put key v).Throughout P Q :=
  ⟨hlasting.put es key v h.1 hkind, forall_put h.2 hkey hv⟩

theorem Throughout.adjust {f : Value → Value} (h : es.Throughout P Q)
    (hf : ∀ v, v.Throughout P Q → (f v).Throughout P Q) (hkind : ∀ v : Value, v.SameKind (f v))
    (key : Scalar) : (es.adjust key f).Throughout P Q := by
  refine ⟨hlasting.alike _ _ (forall₂_adjust Value.SameKind.refl hkind es key) h.1, ?_⟩
  have hall := forall₂_adjust (R := fun v w => v.Throughout P Q → w.Throughout P Q)
    (fun _ hv => hv) hf es key
  intro e he
  obtain ⟨e', he', hkey, hr⟩ := exists_left_of_forall₂ hall he
  exact ⟨hkey ▸ (h.2 e' he').1, hr (h.2 e' he').2⟩

theorem Throughout.changeEntries {label : Nat} {f : Entries → Entries} (h : es.Throughout P Q)
    (hf : ∀ e ∈ es, e.2.Throughout P Q → (e.2.change label f).Throughout P Q) :
    Entries.Throughout P Q (Value.changeEntries label f es) := by
  rw [Value.changeEntries_eq_map]
  refine ⟨hlasting.alike es _ ?_ h.1, List.forall_mem_map.mpr fun e he => ?_⟩
  · rw [List.forall₂_map_right_iff]
    exact List.forall₂_same.mpr fun e _ => ⟨rfl, Value.sameKind_change label f e.2⟩
  · exact ⟨(h.2 e he).1, hf e he (h.2 e he).2⟩

section Writes

variable {f : Entries → Entries}
  (hf : ∀ es : Entries, es.Throughout P Q → (f es).Throughout P Q)
include hf

theorem Throughout.modifyAt (h : es.Throughout P Q) (path : List Scalar) :
    (es.modifyAt path f).Throughout P Q := by
  induction path generalizing es with
  | nil => exact hf es h
  | cons key rest ih =>
    rw [Entries.modifyAt]
    refine Throughout.adjust hlasting h (fun v hv => ?_) (fun v => ?_) key
    · split
      · exact Value.throughout_map.mpr (ih (Value.throughout_map.mp hv))
      · exact hv
    · cases v <;> simp [Value.SameKind]

theorem throughout_change (label : Nat) (v : Value) (h : v.Throughout P Q) :
    (v.change label f).Throughout P Q := by
  induction v using Value.inductionOn with
  | scalar s => exact h
  | set ms => exact h
  | list items ih =>
    rw [Value.throughout_list] at h
    rw [Value.change, Value.changeItems_eq_map, Value.throughout_list]
    exact List.forall_mem_map.mpr fun v hv => ih v hv (h v hv)
  | map l es ih =>
    rw [Value.throughout_map] at h
    rw [Value.change]
    split_ifs
    · exact Value.throughout_map.mpr (hf es h)
    · exact Value.throughout_map.mpr (h.changeEntries hlasting ih)
  | pair a b iha ihb =>
    rw [Value.Throughout] at h
    rw [Value.change, Value.Throughout]
    exact ⟨iha h.1, ihb h.2⟩

/-- A write reaches each place that shares the mapping, and leaves the conditions alone there. -/
theorem Throughout.write (h : es.Throughout P Q) (path : List Scalar) :
    (es.write path f).Throughout P Q := by
  rw [Entries.write]
  split
  · refine h.changeEntries hlasting fun e _ => ?_
    exact throughout_change hlasting (fun es hes => hes.modifyAt hlasting hf _) _ e.2
  · exact h.modifyAt hlasting hf path

end Writes

end Entries

end ApiBindings
