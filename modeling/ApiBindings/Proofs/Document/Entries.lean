import ApiBindings.Document.Access
import ApiBindings.Document.Sharing
import Mathlib.Data.List.Forall2
import Mathlib.Tactic.SplitIfs

/-!
Entries of mappings: what is found under a text key, and what is left alone when another key is
written.
-/

namespace ApiBindings

namespace Scalar

theorem equals_str {k : Scalar} {text : String} : k.equals (.str text) = true ↔ k = .str text := by
  cases k <;> simp [equals, integer?]

@[simp]
theorem isKey_str {k : Scalar} {text : String} : k.isKey (.str text) = true ↔ k = .str text := by
  simp [isKey, equals_str]

theorem str_isKey {text : String} {k : Scalar} :
    (Scalar.str text).isKey k = true ↔ k = .str text := by
  cases k with
  | str other =>
    simp only [isKey_str, Scalar.str.injEq]
    exact eq_comm
  | _ => simp [isKey, equals, integer?]

end Scalar

namespace Value

def members : Value → Entries
  | .map _ es => es
  | _ => []

theorem entries_ok {v : Value} {es : Entries} (h : v.entries = .ok es) : es = v.members := by
  cases v with
  | map label fs =>
    cases h
    rfl
  | _ => cases h

theorem members_of_not_isFilled {v : Value} (h : ¬ v.isFilled = true) : v.members = [] := by
  cases v with
  | map label es =>
    cases es with
    | nil => rfl
    | cons e es => exact absurd rfl h
  | _ => rfl

theorem entriesOrNone_ok {v : Value} {es : Entries} (h : v.entriesOrNone = .ok es) :
    es = v.members := by
  unfold entriesOrNone at h
  split_ifs at h with hfilled
  · exact entries_ok h
  · cases h
    exact (members_of_not_isFilled hfilled).symm

theorem expectKey_ok {v : Value} {key : Scalar} (h : v.expectKey = .ok key) :
    v = .scalar key := by
  unfold expectKey at h
  split at h
  · cases h
    rfl
  · cases h

theorem expectText_ok {v : Value} {text : String} (h : v.expectText = .ok text) :
    v = .str text := by
  unfold expectText at h
  split at h
  · cases h
    rfl
  · cases h
  · cases h

theorem textField_ok {v : Value} {text : String} (h : v.textField = .ok text) : v = .str text := by
  unfold textField at h
  split at h
  · cases h
    rfl
  · cases h

theorem optionalTextField_ok {v : Value} {text : Option String}
    (h : v.optionalTextField = .ok text) : ∀ x ∈ text, v = .str x := by
  unfold optionalTextField at h
  split at h
  · cases h
    exact fun _ hx => nomatch hx
  · cases h
    rintro x ⟨⟩
    rfl
  · cases h

end Value

namespace Entries

variable {es : Entries} {key : Scalar} {v : Value} {f : Value → Value}

theorem exists_mem_of_find? (h : es.find? key = some v) : ∃ k, (k, v) ∈ es := by
  induction es with
  | nil => cases h
  | cons e rest ih =>
    obtain ⟨k, w⟩ := e
    rw [find?] at h
    split_ifs at h
    · cases h
      exact ⟨k, List.mem_cons_self⟩
    · obtain ⟨k', hk'⟩ := ih h
      exact ⟨k', List.mem_cons_of_mem _ hk'⟩

theorem mem_of_get? {name : String} (h : es.get? name = some v) : (.str name, v) ∈ es := by
  induction es with
  | nil => cases h
  | cons e rest ih =>
    obtain ⟨k, w⟩ := e
    rw [get?, find?] at h
    split_ifs at h with hk
    · cases h
      rw [Scalar.isKey_str.mp hk]
      exact List.mem_cons_self
    · exact List.mem_cons_of_mem _ (ih h)

theorem get?_put_self (es : Entries) (key : String) (v : Value) :
    (es.put (.str key) v).get? key = some v := by
  induction es with
  | nil => simp [put, get?, find?]
  | cons e rest ih =>
    obtain ⟨k, w⟩ := e
    rw [put]
    split_ifs with hk
    · simp [get?, find?, hk]
    · simpa [get?, find?, hk] using ih

theorem get?_put_of_ne {name other : String} (h : other ≠ name) (es : Entries) (v : Value) :
    (es.put (.str name) v).get? other = es.get? other := by
  induction es with
  | nil => simp [put, get?, find?, h.symm]
  | cons e rest ih =>
    obtain ⟨k, w⟩ := e
    rw [put]
    split_ifs with hk
    · rw [Scalar.isKey_str] at hk
      simp [get?, find?, hk, h.symm]
    · simpa [get?, find?] using congrArg _ ih

theorem get_put_self (es : Entries) (key : String) (v : Value) :
    (es.put (.str key) v).get key = v := by
  rw [get, get?_put_self, Option.getD_some]

/-- Under a key stands what was written last under it, whatever key it was written with. -/
theorem find?_put_cases (es : Entries) (key : Scalar) (v : Value) (other : Scalar) :
    (es.put key v).find? other = some v ∨ (es.put key v).find? other = es.find? other := by
  induction es with
  | nil =>
    rw [put, find?.eq_def]
    dsimp only
    split_ifs
    · exact .inl rfl
    · exact .inr rfl
  | cons e rest ih =>
    obtain ⟨k, w⟩ := e
    rw [put, find?]
    split_ifs with hkey hother hother
    · rw [find?, if_pos hother]
      exact .inl rfl
    · rw [find?, if_neg hother]
      exact .inr rfl
    · rw [find?, if_pos hother]
      exact .inr rfl
    · rw [find?, if_neg hother]
      exact ih

theorem get_put_cases (es : Entries) (key : Scalar) (v : Value) (name : String) :
    (es.put key v).get name = v ∨ (es.put key v).get name = es.get name := by
  rw [get, get, get?, get?]
  rcases es.find?_put_cases key v (.str name) with h | h
  · exact .inl (by rw [h, Option.getD_some])
  · exact .inr (by rw [h])

theorem find?_adjust_self (es : Entries) (key : Scalar) (f : Value → Value) :
    (es.adjust key f).find? key = (es.find? key).map f := by
  induction es with
  | nil => rfl
  | cons e rest ih =>
    obtain ⟨k, w⟩ := e
    rw [adjust, find?]
    split_ifs with hk
    · rw [find?, if_pos hk, Option.map_some]
    · rw [find?, if_neg hk, ih]

theorem find?_adjust_cases (es : Entries) (key : Scalar) (f : Value → Value) (other : Scalar) :
    (es.adjust key f).find? other = es.find? other ∨
      (es.adjust key f).find? other = (es.find? other).map f := by
  induction es with
  | nil => exact .inl rfl
  | cons e rest ih =>
    obtain ⟨k, w⟩ := e
    rw [adjust, find?]
    split_ifs with hkey hother hother
    · rw [find?, if_pos hother]
      exact .inr rfl
    · rw [find?, if_neg hother]
      exact .inl rfl
    · rw [find?, if_pos hother]
      exact .inl rfl
    · rw [find?, if_neg hother]
      exact ih

theorem get_put_of_ne {name other : String} (h : other ≠ name) (es : Entries) (v : Value) :
    (es.put (.str name) v).get other = es.get other := by
  rw [get, get?_put_of_ne h, get]

theorem get?_adjust_of_ne {name other : String} (h : other ≠ name) (es : Entries)
    (f : Value → Value) : (es.adjust (.str name) f).get? other = es.get? other := by
  induction es with
  | nil => rfl
  | cons e rest ih =>
    obtain ⟨k, w⟩ := e
    rw [adjust]
    split_ifs with hk
    · rw [Scalar.isKey_str] at hk
      simp [get?, find?, hk, h.symm]
    · simpa [get?, find?] using congrArg _ ih

theorem get?_adjust_self (es : Entries) (name : String) (f : Value → Value) :
    (es.adjust (.str name) f).get? name = (es.get? name).map f :=
  es.find?_adjust_self (.str name) f

theorem mem_put {e : Scalar × Value} (h : e ∈ es.put key v) : e ∈ es ∨ e.2 = v := by
  induction es with
  | nil =>
    rw [put, List.mem_singleton] at h
    exact .inr (h ▸ rfl)
  | cons e' rest ih =>
    obtain ⟨k, w⟩ := e'
    rw [put] at h
    split_ifs at h
    · rcases List.mem_cons.mp h with rfl | h
      · exact .inr rfl
      · exact .inl (List.mem_cons_of_mem _ h)
    · rcases List.mem_cons.mp h with rfl | h
      · exact .inl List.mem_cons_self
      · exact (ih h).imp_left (List.mem_cons_of_mem _)

section Forall

variable {P : Scalar → Prop} {R : Value → Prop}

theorem forall_put (h : ∀ e ∈ es, P e.1 ∧ R e.2) (hkey : P key) (hv : R v) :
    ∀ e ∈ es.put key v, P e.1 ∧ R e.2 := by
  induction es with
  | nil =>
    rw [put, List.forall_mem_singleton]
    exact ⟨hkey, hv⟩
  | cons e rest ih =>
    obtain ⟨k, w⟩ := e
    rw [List.forall_mem_cons] at h
    rw [put]
    split_ifs
    · exact List.forall_mem_cons.mpr ⟨⟨h.1.1, hv⟩, h.2⟩
    · exact List.forall_mem_cons.mpr ⟨h.1, ih h.2⟩

theorem forall_ofList (h : ∀ e ∈ es, P e.1 ∧ R e.2) : ∀ e ∈ ofList es, P e.1 ∧ R e.2 := by
  have hfold (es acc : Entries) (hacc : ∀ e ∈ acc, P e.1 ∧ R e.2)
      (h : ∀ e ∈ es, P e.1 ∧ R e.2) :
      ∀ e ∈ es.foldl (fun acc e => acc.put e.1 e.2) acc, P e.1 ∧ R e.2 := by
    induction es generalizing acc with
    | nil => exact hacc
    | cons e es ih =>
      rw [List.forall_mem_cons] at h
      exact ih _ (forall_put hacc h.1.1 h.1.2) h.2
  exact hfold es [] (fun _ he => nomatch he) h

end Forall

theorem forall₂_adjust {R : Value → Value → Prop} (hrefl : ∀ v, R v v) (hf : ∀ v, R v (f v))
    (es : Entries) (key : Scalar) :
    List.Forall₂ (fun e e' => e.1 = e'.1 ∧ R e.2 e'.2) es (es.adjust key f) := by
  have hsame (es : Entries) : List.Forall₂ (fun e e' => e.1 = e'.1 ∧ R e.2 e'.2) es es :=
    List.forall₂_same.mpr fun e _ => ⟨rfl, hrefl e.2⟩
  induction es with
  | nil => exact .nil
  | cons e rest ih =>
    obtain ⟨k, w⟩ := e
    rw [adjust]
    split_ifs
    · exact .cons ⟨rfl, hf w⟩ (hsame rest)
    · exact .cons ⟨rfl, hrefl w⟩ ih

def keys (es : Entries) : List Scalar := es.map Prod.fst

theorem keys_put (es : Entries) (key : Scalar) (v : Value) :
    (es.put key v).keys = if (es.find? key).isSome then es.keys else es.keys ++ [key] := by
  induction es with
  | nil => rfl
  | cons e rest ih =>
    obtain ⟨k, w⟩ := e
    rw [put, find?]
    by_cases hk : k.isKey key = true
    · simp only [if_pos hk]
      rfl
    · simp only [if_neg hk]
      rw [keys, List.map_cons, ← keys, ih]
      split_ifs <;> rfl

theorem adjust_eq_put (h : es.find? key = some v) (f : Value → Value) :
    es.adjust key f = es.put key (f v) := by
  induction es with
  | nil => cases h
  | cons e rest ih =>
    obtain ⟨k, w⟩ := e
    rw [find?] at h
    rw [adjust, put]
    split_ifs at h ⊢
    · cases h
      rfl
    · rw [ih h]

theorem put_put (es : Entries) (name : String) (v w : Value) :
    (es.put (.str name) v).put (.str name) w = es.put (.str name) w := by
  induction es with
  | nil => simp [put]
  | cons e rest ih =>
    obtain ⟨k, u⟩ := e
    by_cases hk : k.isKey (.str name) = true
    · simp only [put, if_pos hk]
    · simp only [put, if_neg hk, ih]

/-- The second mapping has the entries of the first in their order, but for the one under a key,
which goes last if it is new. -/
structure SameBut (name : String) (es fs : Entries) : Prop where
  keys : fs.keys = if (es.get? name).isSome then es.keys else es.keys ++ [.str name]
  others : ∀ other, other ≠ .str name → fs.find? other = es.find? other

namespace SameBut

variable {name : String} {fs gs : Entries}

theorem put (es : Entries) (name : String) (v : Value) :
    SameBut name es (es.put (.str name) v) where
  keys := es.keys_put (.str name) v
  others other hother := by
    have hne : ¬ (Scalar.str name).isKey other = true := fun h => hother (Scalar.str_isKey.mp h)
    induction es with
    | nil => simp [Entries.put, find?, hne]
    | cons e rest ih =>
      obtain ⟨k, w⟩ := e
      rw [Entries.put]
      split_ifs with hk
      · rw [Scalar.isKey_str.mp hk, find?, find?, if_neg hne, if_neg hne]
      · rw [find?, find?, ih]

theorem get? (h : SameBut name es fs) {other : String} (hne : other ≠ name) :
    fs.get? other = es.get? other :=
  h.others (.str other) fun heq => hne (Scalar.str.inj heq)

theorem get (h : SameBut name es fs) {other : String} (hne : other ≠ name) :
    fs.get other = es.get other := by
  rw [Entries.get, h.get? hne, Entries.get]

theorem put_trans (h : SameBut name es fs) (hfs : (fs.get? name).isSome) (v : Value) :
    SameBut name es (fs.put (.str name) v) where
  keys := by rw [(put fs name v).keys, if_pos hfs, h.keys]
  others other hother := ((put fs name v).others other hother).trans (h.others other hother)

end SameBut

end Entries

end ApiBindings
