import ApiBindings.Json.Reader
import ApiBindings.Proofs.Document.Keys

/-!
Documents that are written in JSON. Main statement: they are trees of JSON values.
-/

namespace ApiBindings.Json

theorem readNumber?_isJson {negative : Bool} {s rest : List Char} {value : Scalar}
    (h : readNumber? negative s = some (.ok value, rest)) : value.isJson = true := by
  unfold readNumber? at h
  obtain ⟨whole, -, h⟩ := Option.bind_eq_some_iff.mp h
  dsimp only at h
  split_ifs at h
  · cases h
  · cases h
    rfl
  · cases h
    rfl
  · cases h
    exact Binary64.isCanonical_ofDecimal _ _ _

theorem readWord?_isJson {s rest : List Char} {value : Scalar} {table : List (String × Scalar)}
    (htable : ∀ e ∈ table, e.2.isJson = true) (h : readWord? s table = some (value, rest)) :
    value.isJson = true := by
  induction table with
  | nil => cases h
  | cons e table ih =>
    rw [List.forall_mem_cons] at htable
    rw [readWord?] at h
    split at h
    · cases h
      exact htable.1
    · exact ih htable.2 h

theorem readScalar_isJson {s : List Char} {found : Scalar × List Char}
    (h : readScalar s = .ok found) : found.1.isJson = true := by
  unfold readScalar at h
  split at h
  · rename_i found' hfound
    cases h
    exact readWord?_isJson (by decide) hfound
  · dsimp only at h
    split at h
    · rename_i value rest hnumber
      cases h
      split at hnumber
      · exact readNumber?_isJson hnumber
      · exact readNumber?_isJson hnumber
    · cases h
    · cases h

def ValueJson (s : List Char) : Prop := ∀ r, readValue s = .ok r → r.value.isJson = true

def ItemsJson (s : List Char) : Prop := ∀ r, readItems s = .ok r → ∀ v ∈ r.value, v.isJson = true

def MembersJson (s : List Char) : Prop :=
  ∀ r, readMembers s = .ok r → ∀ e ∈ r.value, (∃ name, e.1 = .str name) ∧ e.2.isJson = true

theorem readValue_json {s : List Char}
    (hitems : ∀ t : List Char, t.length < s.length → ItemsJson t)
    (hmembers : ∀ t : List Char, t.length < s.length → MembersJson t) :
    ValueJson s := by
  intro r h
  unfold readValue at h
  split at h
  · obtain ⟨text, -, h⟩ := bind_eq_ok.mp h
    cases pure_eq_ok.mp h
    rfl
  · rename_i rest
    have hrest : (skipBlanks rest).length < ('[' :: rest).length :=
      Nat.lt_succ_of_le (length_skipBlanks_le rest)
    split at h
    · cases h
      rfl
    · obtain ⟨items, hread, h⟩ := bind_eq_ok.mp h
      cases pure_eq_ok.mp h
      exact Value.areJson_iff.mpr (hitems _ hrest items hread)
  · rename_i rest
    have hrest : (skipBlanks rest).length < ('\x7b' :: rest).length :=
      Nat.lt_succ_of_le (length_skipBlanks_le rest)
    split at h
    · cases h
      rfl
    · obtain ⟨members, hread, h⟩ := bind_eq_ok.mp h
      cases pure_eq_ok.mp h
      have hjson := @Entries.forall_ofList _ (fun k => ∃ name, k = .str name)
        (fun v => v.isJson = true) (hmembers _ hrest members hread)
      exact Value.isJson_map.mpr ⟨rfl, hjson⟩
  · obtain ⟨found, hfound, h⟩ := bind_eq_ok.mp h
    obtain ⟨value, rest⟩ := found
    dsimp only at h
    split_ifs at h
    cases pure_eq_ok.mp h
    exact readScalar_isJson hfound

theorem readItems_json {s : List Char} (hvalue : ValueJson s)
    (hitems : ∀ t : List Char, t.length < s.length → ItemsJson t) : ItemsJson s := by
  intro r h
  unfold readItems at h
  obtain ⟨item, hitem, h⟩ := bind_eq_ok.mp h
  split at h
  · cases pure_eq_ok.mp h
    intro v hv
    rw [List.mem_singleton.mp hv]
    exact hvalue item hitem
  · rename_i after hafter
    have hshort : (skipBlanks after).length < s.length := by
      have := length_skipBlanks_le item.rest
      have := length_skipBlanks_le after
      have := item.shorter
      rw [hafter, List.length_cons] at *
      omega
    obtain ⟨tail, htail, h⟩ := bind_eq_ok.mp h
    cases pure_eq_ok.mp h
    intro v hv
    rcases List.mem_cons.mp hv with rfl | hv
    · exact hvalue item hitem
    · exact hitems _ hshort tail htail v hv
  · cases h

theorem readMembers_json {s : List Char}
    (hvalue : ∀ t : List Char, t.length < s.length → ValueJson t)
    (hmembers : ∀ t : List Char, t.length < s.length → MembersJson t) :
    MembersJson s := by
  intro r h
  unfold readMembers at h
  split at h
  · rename_i rest
    obtain ⟨name, -, h⟩ := bind_eq_ok.mp h
    split at h
    · rename_i afterColon hcolon
      -- blanks, name and colon are read, so that what is left is shorter
      have hshort : (skipBlanks afterColon).length < ('"' :: rest).length := by
        have := length_skipBlanks_le name.rest
        have := length_skipBlanks_le afterColon
        have := name.shorter
        simp only [hcolon, List.length_cons] at *
        omega
      obtain ⟨value, hread, h⟩ := bind_eq_ok.mp h
      have hfirst : value.value.isJson = true := hvalue _ hshort value hread
      dsimp only at h
      split at h
      · cases pure_eq_ok.mp h
        intro e he
        rw [List.mem_singleton.mp he]
        exact ⟨⟨_, rfl⟩, hfirst⟩
      · rename_i after hafter
        have hlater : (skipBlanks after).length < ('"' :: rest).length := by
          have := length_skipBlanks_le value.rest
          have := length_skipBlanks_le after
          have := value.shorter
          simp only [hafter, List.length_cons] at *
          omega
        obtain ⟨tail, htail, h⟩ := bind_eq_ok.mp h
        cases pure_eq_ok.mp h
        intro e he
        rcases List.mem_cons.mp he with rfl | he
        · exact ⟨⟨_, rfl⟩, hfirst⟩
        · exact hmembers _ hlater tail htail e he
      · cases h
    · cases h
  · cases h

/-- The three readers go down together: each piece that they read is shorter. -/
theorem readers_json (n : Nat) : ∀ s : List Char, s.length ≤ n →
    ValueJson s ∧ ItemsJson s ∧ MembersJson s := by
  induction n using Nat.strongRecOn with
  | ind n ih =>
    intro s hs
    have hshorter (t : List Char) (ht : t.length < s.length) :=
      ih t.length (Nat.lt_of_lt_of_le ht hs) t (Nat.le_refl _)
    have hvalue : ValueJson s :=
      readValue_json (fun t ht => (hshorter t ht).2.1) fun t ht => (hshorter t ht).2.2
    refine ⟨hvalue, readItems_json hvalue fun t ht => (hshorter t ht).2.1, ?_⟩
    exact readMembers_json (fun t ht => (hshorter t ht).1) fun t ht => (hshorter t ht).2.2

theorem isJson_of_read {doc : List Char} {v : Value} (h : read doc = .ok v) :
    v.isJson = true := by
  unfold read at h
  split at h
  · cases h
  · obtain ⟨found, hfound, h⟩ := bind_eq_ok.mp h
    split at h
    · cases pure_eq_ok.mp h
      exact (readers_json _ _ (Nat.le_refl _)).1 found hfound
    · cases h

end ApiBindings.Json
