import ApiBindings.Proofs.Document.Pointer
import ApiBindings.Proofs.Document.Tree

/-!
The evaluation of a pointer in a document, by the keys of mappings and the places of lists. Main
statement: a pointer leads into the document exactly if it evaluates to a node by keys alone.
-/

namespace ApiBindings

namespace Pointer

/-- The characters that a segment stands for, read once from the left. -/
def decoded : List Char → List Char
  | '~' :: '0' :: cs => '~' :: decoded cs
  | '~' :: '1' :: cs => '/' :: decoded cs
  | c :: cs => c :: decoded cs
  | [] => []

theorem head_contract_slash_ne (c : Char) (cs : List Char) (hc : c ≠ '0') :
    (Text.contract '~' '1' '/' (c :: cs)).head? ≠ some '0' := by
  by_cases htilde : c = '~'
  · subst htilde
    cases cs with
    | nil => simp [Text.contract]
    | cons d cs =>
      rw [Text.contract]
      split <;> simp
  · rw [Text.contract_cons_of_ne htilde]
    simpa using hc

theorem contract_tilde_cons {cs : List Char} (h : cs.head? ≠ some '0') :
    Text.contract '~' '0' '~' ('~' :: cs) = '~' :: Text.contract '~' '0' '~' cs := by
  cases cs with
  | nil => rfl
  | cons d cs =>
    have hd : d ≠ '0' := by simpa using h
    rw [Text.contract, if_neg fun hpair => hd hpair.2]

theorem contract_contract (cs : List Char) :
    Text.contract '~' '0' '~' (Text.contract '~' '1' '/' cs) = decoded cs := by
  fun_induction decoded cs with
  | case1 cs ih =>
    have hzero : Text.contract '~' '1' '/' ('~' :: '0' :: cs) =
        '~' :: '0' :: Text.contract '~' '1' '/' cs := by
      rw [Text.contract, if_neg (by decide), Text.contract_cons_of_ne (by decide)]
    rw [hzero, Text.contract_pair, ih]
  | case2 cs ih => rw [Text.contract_pair, Text.contract_cons_of_ne (by decide), ih]
  | case3 c cs hzero hone ih =>
    by_cases htilde : c = '~'
    · subst htilde
      cases cs with
      | nil => rfl
      | cons d cs =>
        have hd0 : d ≠ '0' := fun h => hzero cs rfl (by rw [h])
        have hd1 : d ≠ '1' := fun h => hone cs rfl (by rw [h])
        rw [Text.contract, if_neg fun hpair => hd1 hpair.2,
          contract_tilde_cons (head_contract_slash_ne d cs hd0), ih]
    · rw [Text.contract_cons_of_ne htilde, Text.contract_cons_of_ne htilde, ih]
  | case4 => rfl

theorem unescape_eq (segment : String) :
    unescape segment = String.ofList (decoded segment.toList) := by
  rw [unescape, contract_contract]

/-- A segment names the entry of the key that it stands for, and the item at the place that it
gives in decimal. -/
def Names (segment : String) : Value.Step → Prop
  | .key name => name = String.ofList (decoded segment.toList)
  | .index n => segment = Text.ofNat n

structure Evaluates (document : Value) (pointer : String) (steps : List Value.Step) (v : Value) :
    Prop where
  named : List.Forall₂ Names (Text.splitAt '/' pointer) steps
  leads : document.at? steps = some v

theorem follow?_eq_at? (v : Value) (keys : List String) :
    follow? v keys = v.at? (keys.map .key) := by
  induction keys generalizing v with
  | nil => rw [follow?, List.map_nil, Value.at?]
  | cons key keys ih =>
    cases v with
    | map label es =>
      rw [follow?, List.map_cons, Value.at?]
      cases Entries.get? es key with
      | none => rfl
      | some w => exact ih w
    | _ => rfl

theorem names_keys (pointer : String) :
    List.Forall₂ Names (Text.splitAt '/' pointer) ((keys pointer).map .key) := by
  rw [keys, List.map_map]
  induction Text.splitAt '/' pointer with
  | nil => exact .nil
  | cons segment segments ih => exact .cons (unescape_eq segment) ih

theorem isSome_at?_keys {segments : List String} {steps : List Value.Step}
    (hnamed : List.Forall₂ Names segments steps) {document v : Value}
    (hleads : document.at? steps = some v) :
    (document.at? ((segments.map unescape).map .key)).isSome = true ↔
      ∀ step ∈ steps, ∃ name, step = .key name := by
  induction hnamed generalizing document with
  | nil => simp [Value.at?]
  | @cons segment step segments steps hname hnamed ih =>
    rw [List.forall_mem_cons]
    cases step with
    | key name =>
      have hkey : unescape segment = name := by rw [unescape_eq, ← hname]
      cases document with
      | map label es =>
        obtain ⟨w, hget, hw⟩ := Option.bind_eq_some_iff.mp hleads
        rw [List.map_cons, List.map_cons, Value.at?, hkey, hget, Option.bind_some, ih hw]
        exact ⟨fun h => ⟨⟨name, rfl⟩, h⟩, fun h => h.2⟩
      | _ => cases hleads
    | index n =>
      -- a place leads into a list, and there no key leads on
      cases document with
      | list items => simp [Value.at?]
      | _ => cases hleads

/-- A pointer that leads into the document evaluates to one of its nodes. One that evaluates to a
node leads into the document exactly if every segment names a key: the check does not enter the
lists, through which the references to their items lead. -/
theorem leadsInto_evaluates (document : Value) (pointer : String) :
    (leadsInto document pointer = true → ∃ steps v, Evaluates document pointer steps v) ∧
      ∀ steps v, Evaluates document pointer steps v →
        (leadsInto document pointer = true ↔ ∀ step ∈ steps, ∃ name, step = .key name) := by
  rw [leadsInto, follow?_eq_at?]
  refine ⟨fun h => ?_, fun steps v hv => isSome_at?_keys hv.named hv.leads⟩
  obtain ⟨v, hv⟩ := Option.isSome_iff_exists.mp h
  exact ⟨_, v, names_keys pointer, hv⟩

def singleChoice : Value :=
  .ofEntries [(.str "Pet", .ofEntries [
    (.str "allOf", .list [.ofEntries [(.str "type", .str "object")]])])]

theorem evaluates_singleChoice : Evaluates singleChoice "Pet/allOf/0"
    [.key "Pet", .key "allOf", .index 0] (.ofEntries [(.str "type", .str "object")]) where
  named := by
    rw [show Text.splitAt '/' "Pet/allOf/0" = ["Pet", "allOf", "0"] by decide]
    exact .cons rfl (.cons rfl (.cons rfl .nil))
  leads := rfl

/-- A node of a document of JSON to which a pointer evaluates need not be found. -/
theorem leadsInto_misses_alternative :
    ¬ ∀ (document : Value) (pointer : String), document.isJson = true →
      (leadsInto document pointer = true ↔ ∃ steps v, Evaluates document pointer steps v) := by
  intro hall
  have hfound : leadsInto singleChoice "Pet/allOf/0" = true :=
    (hall singleChoice "Pet/allOf/0" (by decide)).mpr ⟨_, _, evaluates_singleChoice⟩
  have hmissed : leadsInto singleChoice "Pet/allOf/0" = false := by decide
  rw [hmissed] at hfound
  cases hfound

end Pointer

end ApiBindings
