import ApiBindings.Document.Display
import ApiBindings.Document.Lax
import ApiBindings.Proofs.Document.Throughout
import ApiBindings.Proofs.Document.Unlabelled

/-!
The tree of a document: the same value, with no mapping shared by two places. Main statement: what
is read from the tree is the tree of what is read from the document.
-/

namespace ApiBindings

namespace Value

mutual

/-- The value in which every place has a mapping of its own. -/
def unshared : Value → Value
  | .scalar s => .scalar s
  | .list items => .list (itemsUnshared items)
  | .map _ es => .map none (entriesUnshared es)
  | .set ms => .set ms
  | .pair a b => .pair (unshared a) (unshared b)

def itemsUnshared : List Value → List Value
  | [] => []
  | v :: vs => unshared v :: itemsUnshared vs

def entriesUnshared : List (Scalar × Value) → List (Scalar × Value)
  | [] => []
  | (k, v) :: es => (k, unshared v) :: entriesUnshared es

end

theorem itemsUnshared_eq_map (items : List Value) : itemsUnshared items = items.map unshared := by
  induction items with
  | nil => rfl
  | cons v vs ih => rw [itemsUnshared, ih, List.map_cons]

end Value

namespace Entries

def unshared (es : Entries) : Entries := es.map fun e => (e.1, e.2.unshared)

@[simp]
theorem unshared_nil : unshared [] = [] := rfl

@[simp]
theorem unshared_cons (e : Scalar × Value) (es : Entries) :
    unshared (e :: es) = (e.1, e.2.unshared) :: unshared es := rfl

@[simp]
theorem length_unshared (es : Entries) : es.unshared.length = es.length := List.length_map _

end Entries

namespace Value

@[simp]
theorem unshared_scalar (s : Scalar) : (Value.scalar s).unshared = .scalar s := by
  rw [unshared]

@[simp]
theorem unshared_list (items : List Value) :
    (Value.list items).unshared = .list (items.map unshared) := by
  rw [unshared, itemsUnshared_eq_map]

@[simp]
theorem unshared_map (label : Option Nat) (es : Entries) :
    (Value.map label es).unshared = .map none es.unshared := by
  have hentries : entriesUnshared es = es.unshared := by
    induction es with
    | nil => rfl
    | cons e es ih => rw [entriesUnshared, ih, Entries.unshared_cons]
  rw [unshared, hentries]

@[simp]
theorem unshared_set (ms : List Scalar) : (Value.set ms).unshared = .set ms := by
  rw [unshared]

@[simp]
theorem unshared_pair (a b : Value) : (Value.pair a b).unshared = .pair a.unshared b.unshared := by
  rw [unshared]

theorem isUnlabelled_unshared (v : Value) : v.unshared.isUnlabelled = true := by
  induction v using inductionOn with
  | scalar s => simp [isUnlabelled]
  | list items ih => simpa [isUnlabelled, areUnlabelled_iff] using ih
  | map label es ih =>
    rw [unshared_map, isUnlabelled_map]
    exact ⟨rfl, List.forall_mem_map.mpr ih⟩
  | set ms => simp [isUnlabelled]
  | pair a b iha ihb => simp [isUnlabelled, iha, ihb]

end Value

namespace Entries

theorem unlabelled_unshared (es : Entries) : es.unshared.Unlabelled :=
  List.forall_mem_map.mpr fun e _ => e.2.isUnlabelled_unshared

variable (es : Entries)

@[simp]
theorem find?_unshared (key : Scalar) :
    es.unshared.find? key = (es.find? key).map Value.unshared := by
  induction es with
  | nil => rfl
  | cons e rest ih =>
    obtain ⟨k, v⟩ := e
    rw [unshared_cons, find?, find?, ih]
    split_ifs
    · rfl
    · rfl

@[simp]
theorem get?_unshared (key : String) : es.unshared.get? key = (es.get? key).map Value.unshared :=
  es.find?_unshared _

@[simp]
theorem get_unshared (key : String) : es.unshared.get key = (es.get key).unshared := by
  rw [get, get?_unshared, get]
  cases es.get? key with
  | none => rw [Option.map_none, Option.getD_none, Value.unshared_scalar]
  | some v => rfl

theorem put_unshared (key : Scalar) (v : Value) :
    (es.put key v).unshared = es.unshared.put key v.unshared := by
  induction es with
  | nil => rfl
  | cons e rest ih =>
    obtain ⟨k, w⟩ := e
    rw [unshared_cons, put, put]
    split_ifs
    · rw [unshared_cons]
    · rw [unshared_cons, ih]

theorem ofList_unshared : (ofList es).unshared = ofList es.unshared := by
  have hfold (acc : Entries) : (es.foldl (fun acc e => acc.put e.1 e.2) acc).unshared =
      es.unshared.foldl (fun acc e => acc.put e.1 e.2) acc.unshared := by
    induction es generalizing acc with
    | nil => rfl
    | cons e es ih => rw [List.foldl_cons, ih, put_unshared, unshared_cons, List.foldl_cons]
  exact hfold []

theorem adjust_unshared {f g : Value → Value} (hfg : ∀ v, (f v).unshared = g v.unshared)
    (key : Scalar) : (es.adjust key f).unshared = es.unshared.adjust key g := by
  induction es with
  | nil => rfl
  | cons e rest ih =>
    obtain ⟨k, w⟩ := e
    rw [unshared_cons, adjust, adjust]
    split_ifs
    · rw [unshared_cons, hfg]
    · rw [unshared_cons, ih]

theorem modifyAt_unshared {f g : Entries → Entries}
    (hfg : ∀ es : Entries, (f es).unshared = g es.unshared) (path : List Scalar) :
    (es.modifyAt path f).unshared = es.unshared.modifyAt path g := by
  induction path generalizing es with
  | nil => exact hfg es
  | cons key rest ih =>
    rw [modifyAt, modifyAt]
    refine es.adjust_unshared (fun v => ?_) key
    cases v with
    | map label inner => rw [Value.unshared_map, Value.unshared_map, ih]
    | _ => simp

end Entries

namespace Value

variable (v : Value)

@[simp]
theorem isFilled_unshared : v.unshared.isFilled = v.isFilled := by
  cases v with
  | list items => cases items <;> simp [isFilled]
  | map label es => cases es <;> simp [isFilled]
  | _ => simp [isFilled]

@[simp]
theorem filled?_unshared : v.unshared.filled? = v.filled?.map unshared := by
  rw [filled?, filled?, isFilled_unshared]
  split_ifs
  · rfl
  · rfl

@[simp]
theorem entries_unshared : v.unshared.entries = Entries.unshared <$> v.entries := by
  cases v with
  | map label es =>
    rw [unshared_map]
    rfl
  | _ => simp [entries]

@[simp]
theorem entriesOrNone_unshared :
    v.unshared.entriesOrNone = Entries.unshared <$> v.entriesOrNone := by
  rw [entriesOrNone, entriesOrNone, isFilled_unshared]
  split_ifs
  · exact v.entries_unshared
  · rfl

@[simp]
theorem expectText_unshared : v.unshared.expectText = v.expectText := by
  cases v <;> simp [expectText]

@[simp]
theorem expectKey_unshared : v.unshared.expectKey = v.expectKey := by
  cases v <;> simp [expectKey]

@[simp]
theorem textField_unshared : v.unshared.textField = v.textField := by
  cases v <;> simp [textField]

@[simp]
theorem optionalTextField_unshared : v.unshared.optionalTextField = v.optionalTextField := by
  cases v <;> simp [optionalTextField]

@[simp]
theorem integerField_unshared : v.unshared.integerField = v.integerField := by
  cases v <;> simp [integerField]

@[simp]
theorem elements_unshared : v.unshared.elements = List.map unshared <$> v.elements := by
  cases v with
  | scalar s => cases s <;> simp [elements]
  | map label es => simp [elements, Entries.unshared]
  | _ => simp [elements]

theorem asEntry_unshared :
    v.unshared.asEntry = (fun e => (e.1, e.2.unshared)) <$> v.asEntry := by
  rw [asEntry, asEntry, elements_unshared, bind_map_left, map_bind]
  refine bind_congr fun parts => ?_
  match parts with
  | [] => rfl
  | [key] => rfl
  | [key, value] => simp
  | _ :: _ :: _ :: _ => rfl

@[simp]
theorem toEntries_unshared : v.unshared.toEntries = Entries.unshared <$> v.toEntries := by
  have hmapM (items : List Value) :
      (items.map unshared).mapM asEntry = Entries.unshared <$> items.mapM asEntry := by
    induction items with
    | nil => rfl
    | cons item items ih => simp [ih, asEntry_unshared]
  have hitems : (do return Entries.ofList (← (← v.unshared.elements).mapM asEntry)) =
      Entries.unshared <$> (do return Entries.ofList (← (← v.elements).mapM asEntry)) := by
    simp [hmapM, Entries.ofList_unshared]
  cases v with
  | map label es => simp [toEntries]
  | scalar s => simpa [toEntries] using hitems
  | list items => simpa [toEntries] using hitems
  | set ms => simpa [toEntries] using hitems
  | pair a b => simpa [toEntries] using hitems

theorem sameAs_unshared (nanIsNan : Bool) (v w : Value) :
    sameAs nanIsNan v.unshared w.unshared = sameAs nanIsNan v w := by
  induction v using inductionOn generalizing nanIsNan w with
  | scalar s => cases w <;> simp [sameAs]
  | list items ih =>
    -- items are compared in pairs, whatever list is on the other side
    have hitems (ys : List Value) :
        sameItems (items.map unshared) (ys.map unshared) = sameItems items ys := by
      induction items generalizing ys with
      | nil => cases ys <;> simp [sameItems]
      | cons x xs ihxs =>
        cases ys with
        | nil => simp [sameItems]
        | cons y ys =>
          rw [List.map_cons, List.map_cons, sameItems, sameItems, ih x List.mem_cons_self,
            ihxs fun v hv => ih v (List.mem_cons_of_mem x hv)]
    cases w <;> simp [sameAs, hitems]
  | map label es ih =>
    have hentries (fs : Entries) : sameEntries es.unshared fs.unshared = sameEntries es fs := by
      induction es with
      | nil => simp [sameEntries]
      | cons e es ihes =>
        obtain ⟨k, x⟩ := e
        rw [Entries.unshared_cons, sameEntries, sameEntries, Entries.find?_unshared,
          ihes fun e he => ih e (List.mem_cons_of_mem _ he)]
        cases fs.find? k with
        | none => rfl
        | some y => exact congrArg (· && _) (ih (k, x) List.mem_cons_self true y)
    cases w <;> simp [sameAs, hentries]
  | set ms => cases w <;> simp [sameAs]
  | pair a b iha ihb => cases w <;> simp [sameAs, iha, ihb]

@[simp]
theorem equals_unshared (w : Value) : v.unshared.equals w.unshared = v.equals w :=
  sameAs_unshared false v w

@[simp]
theorem holds_unshared (key : Scalar) : v.unshared.holds key = v.holds key := by
  have hkey (w : Value) : sameAs true (.scalar key) w.unshared = sameAs true (.scalar key) w := by
    rw [← sameAs_unshared true (.scalar key) w, unshared_scalar]
  cases v with
  | list items => simp [holds, List.any_map, Function.comp_def, hkey]
  | map label es => simp [holds]
  | pair a b => simp [holds, hkey]
  | _ => simp

@[simp]
theorem literal_unshared : v.unshared.literal = v.literal := by
  induction v using inductionOn with
  | list items ih =>
    have hitems : literals (items.map unshared) = literals items := by
      induction items with
      | nil => rfl
      | cons x xs ihxs =>
        rw [List.map_cons, literals, literals, ih x List.mem_cons_self,
          ihxs fun v hv => ih v (List.mem_cons_of_mem x hv)]
    rw [unshared_list, literal, literal, hitems]
  | map label es ih =>
    have hentries : entryLiterals es.unshared = entryLiterals es := by
      induction es with
      | nil => rfl
      | cons e es ihes =>
        obtain ⟨k, x⟩ := e
        rw [Entries.unshared_cons, entryLiterals, entryLiterals, ih (k, x) List.mem_cons_self,
          ihes fun e he => ih e (List.mem_cons_of_mem _ he)]
    rw [unshared_map, literal, literal, hentries]
  | pair a b iha ihb => rw [unshared_pair, literal, literal, iha, ihb]
  | _ => simp

@[simp]
theorem text_unshared : v.unshared.text = v.text := by
  cases v with
  | scalar s => rw [unshared_scalar]
  | list items => exact (Value.list items).literal_unshared
  | map label es => exact (Value.map label es).literal_unshared
  | set ms => rw [unshared_set]
  | pair a b => exact (Value.pair a b).literal_unshared

end Value

end ApiBindings
