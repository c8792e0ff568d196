import ApiBindings.Proofs.Document.Throughout
import ApiBindings.Proofs.Document.Unlabelled
import ApiBindings.Proofs.Numeric.Canonical

/-!
JSON values, and scalars of JSON as keys. Main statement: equality of such keys is an equivalence,
so that what is written under a key is found under every key equal to it, and under no other.
-/

namespace ApiBindings

namespace Scalar

/-- Null, truth values, numbers and texts; a float is in its one form. -/
def isJson : Scalar → Bool
  | .null => true
  | .bool _ => true
  | .int _ => true
  | .float x => x.isCanonical
  | .str _ => true
  | _ => false

def isText : Scalar → Bool
  | .str _ => true
  | _ => false

theorem isText_iff {k : Scalar} : k.isText = true ↔ ∃ name, k = .str name := by
  cases k <;> simp [isText]

/-- One scalar for all that are equal as keys. -/
def keyForm : Scalar → Scalar
  | .bool b => .int (if b then 1 else 0)
  | .float x => match x.toInt? with
    | some n => .int n
    | none => .float x
  | s => s

theorem float_isKey_iff {x y : Binary64} (hx : x.isCanonical = true) (hy : y.isCanonical = true) :
    (Scalar.float x).isKey (.float y) = true ↔
      (Scalar.float x).keyForm = (Scalar.float y).keyForm := by
  have hkey : (Scalar.float x).isKey (.float y) = true ↔
      x.equals y = true ∨ x = .nan ∧ y = .nan := by
    simp [isKey, equals]
  rw [hkey, keyForm, keyForm]
  constructor
  · rintro (h | ⟨rfl, rfl⟩)
    · obtain ⟨-, -, rfl | ⟨hxzero, hyzero⟩⟩ := Binary64.equals_iff.mp h
      · rfl
      · rw [Binary64.toInt?_of_isZero hxzero, Binary64.toInt?_of_isZero hyzero]
    · rfl
  · intro h
    -- both are integers, and then the same one, or neither is
    cases hxn : x.toInt? with
    | some m =>
      cases hyn : y.toInt? with
      | some n =>
        rw [hxn, hyn] at h
        cases h
        exact .inl (Binary64.equals_of_toInt?_eq hx hy hxn hyn)
      | none => simp [hxn, hyn] at h
    | none =>
      cases hyn : y.toInt? with
      | some n => simp [hxn, hyn] at h
      | none =>
        obtain rfl : x = y := by simpa [hxn, hyn] using h
        by_cases hnan : x = .nan
        · exact .inr ⟨hnan, hnan⟩
        · exact .inl (Binary64.equals_iff.mpr ⟨hnan, hnan, .inl rfl⟩)

theorem isKey_iff {a b : Scalar} (ha : a.isJson = true) (hb : b.isJson = true) :
    a.isKey b = true ↔ a.keyForm = b.keyForm := by
  cases a with
  | float x =>
    cases b with
    | float y => exact float_isKey_iff ha hb
    | _ =>
      simp only [isKey, equals, keyForm, integer?]
      cases x.toInt? <;> simp
  | _ =>
    cases b with
    | float y =>
      simp only [isKey, equals, keyForm, integer?]
      cases y.toInt? <;> simp
    | _ => simp_all [isKey, equals, keyForm, integer?, isJson]

variable {a b c : Scalar}

theorem isKey_comm (ha : a.isJson = true) (hb : b.isJson = true) : a.isKey b = b.isKey a := by
  rw [Bool.eq_iff_iff, isKey_iff ha hb, isKey_iff hb ha, eq_comm]

theorem isKey_congr (ha : a.isJson = true) (hb : b.isJson = true) (hc : c.isJson = true)
    (h : a.isKey b = true) : a.isKey c = b.isKey c := by
  rw [Bool.eq_iff_iff, isKey_iff ha hc, isKey_iff hb hc, (isKey_iff ha hb).mp h]

end Scalar

namespace Entries

def JsonKeys (es : Entries) : Prop := ∀ e ∈ es, e.1.isJson = true

variable {es : Entries} {key other : Scalar} (hes : es.JsonKeys) (hkey : key.isJson = true)
  (hother : other.isJson = true)
include hes hkey hother

theorem JsonKeys.find?_congr (h : key.isKey other = true) : es.find? key = es.find? other := by
  induction es with
  | nil => rfl
  | cons e rest ih =>
    obtain ⟨k, w⟩ := e
    have hk : k.isJson = true := hes (k, w) List.mem_cons_self
    rw [find?, find?, ih fun e he => hes e (List.mem_cons_of_mem _ he), Scalar.isKey_comm hk hkey,
      Scalar.isKey_congr hkey hother hk h, Scalar.isKey_comm hother hk]

theorem JsonKeys.find?_put (v : Value) :
    (es.put key v).find? other = if key.isKey other then some v else es.find? other := by
  induction es with
  | nil => rfl
  | cons e rest ih =>
    obtain ⟨k, w⟩ := e
    have hk : k.isJson = true := hes (k, w) List.mem_cons_self
    have hrest : JsonKeys rest := fun e he => hes e (List.mem_cons_of_mem _ he)
    rw [put]
    by_cases hkk : k.isKey key = true
    · rw [if_pos hkk, find?, find?, Scalar.isKey_congr hk hkey hother hkk]
      split_ifs <;> rfl
    · rw [if_neg hkk, find?, find?, ih hrest]
      by_cases hko : k.isKey other = true
      · have hkeyo : ¬ key.isKey other = true := by
          rwa [Scalar.isKey_comm hkey hother, ← Scalar.isKey_congr hk hother hkey hko]
        rw [if_pos hko, if_neg hkeyo, if_pos hko]
      · rw [if_neg hko, if_neg hko]

theorem JsonKeys.find?_adjust (f : Value → Value) :
    (es.adjust key f).find? other =
      if key.isKey other then (es.find? other).map f else es.find? other := by
  induction es with
  | nil => simp [adjust, find?]
  | cons e rest ih =>
    obtain ⟨k, w⟩ := e
    have hk : k.isJson = true := hes (k, w) List.mem_cons_self
    have hrest : JsonKeys rest := fun e he => hes e (List.mem_cons_of_mem _ he)
    rw [adjust]
    by_cases hkk : k.isKey key = true
    · rw [if_pos hkk, find?, find?, Scalar.isKey_congr hk hkey hother hkk]
      split_ifs <;> rfl
    · rw [if_neg hkk, find?, find?, ih hrest]
      by_cases hko : k.isKey other = true
      · have hkeyo : ¬ key.isKey other = true := by
          rwa [Scalar.isKey_comm hkey hother, ← Scalar.isKey_congr hk hother hkey hko]
        rw [if_pos hko, if_neg hkeyo, if_pos hko]
      · rw [if_neg hko, if_neg hko]

end Entries

namespace Value

mutual

/-- A tree of lists and of mappings under texts, no two of which are shared. -/
def isJson : Value → Bool
  | .scalar s => s.isJson
  | .list items => areJson items
  | .map label es => label.isNone && entriesJson es
  | _ => false

def areJson : List Value → Bool
  | [] => true
  | v :: vs => isJson v && areJson vs

def entriesJson : List (Scalar × Value) → Bool
  | [] => true
  | (k, v) :: es => k.isText && isJson v && entriesJson es

end

theorem areJson_iff {vs : List Value} : areJson vs = true ↔ ∀ v ∈ vs, v.isJson = true := by
  induction vs with
  | nil => simp [areJson]
  | cons v vs ih => simp [areJson, ih]

theorem entriesJson_iff {es : Entries} :
    entriesJson es = true ↔ ∀ e ∈ es, (∃ name, e.1 = .str name) ∧ e.2.isJson = true := by
  induction es with
  | nil => simp [entriesJson]
  | cons e es ih =>
    rw [entriesJson, Bool.and_eq_true, Bool.and_eq_true, Scalar.isText_iff, ih,
      List.forall_mem_cons]

theorem isJson_map {label : Option Nat} {es : Entries} : (Value.map label es).isJson = true ↔
    label = none ∧ ∀ e ∈ es, (∃ name, e.1 = .str name) ∧ e.2.isJson = true := by
  rw [isJson, Bool.and_eq_true, entriesJson_iff, Option.isNone_iff_eq_none]

theorem isJson_members {v : Value} (h : v.isJson = true) :
    ∀ e ∈ v.members, (∃ name, e.1 = .str name) ∧ e.2.isJson = true := by
  cases v with
  | map label es => exact (isJson_map.mp h).2
  | _ => exact fun _ he => nomatch he

theorem isJson_get {v : Value} (h : v.isJson = true) (key : String) :
    (v.members.get key).isJson = true := by
  rw [Entries.get]
  cases hfound : v.members.get? key with
  | none => rfl
  | some w =>
    obtain ⟨k, hk⟩ := Entries.exists_mem_of_find? hfound
    exact (isJson_members h _ hk).2

theorem isUnlabelled_of_isJson {v : Value} (h : v.isJson = true) : v.isUnlabelled = true := by
  induction v using inductionOn with
  | scalar s => rfl
  | list items ih =>
    rw [isJson, areJson_iff] at h
    exact areUnlabelled_iff.mpr fun v hv => ih v hv (h v hv)
  | map label es ih =>
    obtain ⟨hlabel, hes⟩ := isJson_map.mp h
    exact isUnlabelled_map.mpr ⟨hlabel, fun e he => ih e he (hes e he).2⟩
  | set ms => rfl
  | pair a b => cases h

theorem throughout_of_isJson {v : Value} (h : v.isJson = true) :
    v.Throughout (fun s => s.isJson = true) fun _ => True := by
  induction v using inductionOn with
  | scalar s => exact throughout_scalar.mpr h
  | list items ih =>
    rw [isJson, areJson_iff] at h
    exact throughout_list.mpr fun v hv => ih v hv (h v hv)
  | map label es ih =>
    obtain ⟨-, hes⟩ := isJson_map.mp h
    refine throughout_map.mpr ⟨trivial, fun e he => ?_⟩
    obtain ⟨⟨name, hname⟩, hv⟩ := hes e he
    exact ⟨hname ▸ rfl, ih e he hv⟩
  | set ms => cases h
  | pair a b => cases h

theorem lasting_isJson : Lasting (fun s => s.isJson = true) fun _ => True where
  null := rfl
  char _ _ _ _ := rfl
  byte _ _ _ _ := rfl
  empty := trivial
  put _ _ _ _ _ := trivial
  alike _ _ _ _ := trivial

end Value

end ApiBindings
