import ApiBindings.Proofs.Declaration.Declared
import ApiBindings.Proofs.Naming.TypeName
import ApiBindings.Proofs.Operation.Session

/-!
What a text names: the component of that key, what a reference to it is called, and the types of the
operation with that id. Main statement: all these names are identifiers, unless the word
`Controller` is all that stands in front of a digit or of the end of an operation's name.
-/

namespace ApiBindings

namespace Text

section Erase

variable {p : List Char} (hp : p ≠ [])
include hp

theorem erase_append_self (s : List Char) : erase p (p ++ s) = erase p s := by
  obtain ⟨c, cs, rfl⟩ := List.exists_cons_of_ne_nil hp
  have hafter : after? (c :: cs) (c :: (cs ++ s)) = some s := after?_eq_some_iff.mpr rfl
  rw [List.cons_append, erase, if_neg (by simp)]
  split
  · rename_i r hr
    cases hr.symm.trans hafter
    rfl
  · rename_i hnone
    cases hnone.symm.trans hafter

theorem erase_repeated (n : Nat) (s : List Char) :
    erase p ((List.replicate n p).flatten ++ s) = erase p s := by
  induction n with
  | zero => rfl
  | succ n ih =>
    rw [List.replicate_succ, List.flatten_cons, List.append_assoc, erase_append_self hp, ih]

theorem head?_erase {s : List Char} (h : ¬ p <+: s) : (erase p s).head? = s.head? := by
  cases s with
  | nil => rw [erase]
  | cons c cs =>
    rw [erase, if_neg (by simpa using hp)]
    split
    · rename_i r hr
      exact absurd ⟨r, (after?_eq_some_iff.mp hr).symm⟩ h
    · rfl

theorem exists_repeated (s : List Char) :
    ∃ n rest, s = (List.replicate n p).flatten ++ rest ∧ ¬ p <+: rest := by
  by_cases h : p <+: s
  · obtain ⟨r, hs⟩ := h
    have hshorter : r.length < s.length := by
      have hpos := List.length_pos_iff.mpr hp
      rw [← hs, List.length_append]
      omega
    obtain ⟨n, rest, hr, hrest⟩ := exists_repeated r
    refine ⟨n + 1, rest, ?_, hrest⟩
    rw [← hs, List.replicate_succ, List.flatten_cons, List.append_assoc, ← hr]
  · exact ⟨0, s, rfl, h⟩
termination_by s.length

end Erase

end Text

namespace Operation

open Declaration (BodySection Block Declares sections componentBlocks)
open Naming (IsTypeName IsTypeChar)

/-- The name has nothing but the word `Controller`, any number of times, in front of a digit or of
its end. -/
def OnlyControllers (name : String) : Prop :=
  ∃ n rest, name.toList = (List.replicate n "Controller".toList).flatten ++ rest ∧
    ∀ c ∈ rest.head?, c.isDigit = true

def withoutControllers (name : String) : String :=
  String.ofList (Text.erase "Controller".toList name.toList)

theorem isTypeChar_of_mem_withoutControllers {name : String} (h : IsTypeName name) :
    ∀ c ∈ (withoutControllers name).toList, IsTypeChar c := by
  intro c hc
  rw [withoutControllers, String.toList_ofList] at hc
  exact h.chars c (Text.mem_of_mem_erase hc)

theorem head?_withoutControllers {name : String} {n : Nat} {rest : List Char}
    (hsplit : name.toList = (List.replicate n "Controller".toList).flatten ++ rest)
    (hrest : ¬ "Controller".toList <+: rest) :
    (withoutControllers name).toList.head? = rest.head? := by
  have hne : "Controller".toList ≠ [] := by decide
  rw [withoutControllers, String.toList_ofList, hsplit, Text.erase_repeated hne,
    Text.head?_erase hne hrest]

theorem isTypeName_withoutControllers_iff {name : String} (h : IsTypeName name) :
    IsTypeName (withoutControllers name) ↔ ¬ OnlyControllers name := by
  -- What is left begins with the first character behind the repeated word, whatever comes later.
  constructor
  · rintro hkept ⟨n, rest, hsplit, hdigit⟩
    have hrest : ¬ "Controller".toList <+: rest := by
      rintro ⟨r, rfl⟩
      have hletter := hdigit 'C' rfl
      exact absurd hletter (by decide)
    have hstart := hkept.start
    rw [head?_withoutControllers hsplit hrest] at hstart
    cases hhead : rest.head? with
    | some c =>
      have hc := hstart c hhead
      rw [hdigit c hhead] at hc
      cases hc
    | none =>
      rw [← head?_withoutControllers hsplit hrest, List.head?_eq_none_iff] at hhead
      exact hkept.ne_empty (String.toList_eq_nil_iff.mp hhead)
  · intro honly
    obtain ⟨n, rest, hsplit, hrest⟩ :=
      Text.exists_repeated (p := "Controller".toList) (by decide) name.toList
    have hhead := head?_withoutControllers hsplit hrest
    refine ⟨fun hempty => honly ⟨n, rest, hsplit, fun c hc => ?_⟩,
      isTypeChar_of_mem_withoutControllers h, fun c hc => ?_⟩
    · rw [hempty, String.toList_empty] at hhead
      rw [← hhead] at hc
      cases hc
    · by_contra hdigit
      rw [hhead] at hc
      refine honly ⟨n, rest, hsplit, fun d hd => ?_⟩
      cases (Option.mem_def.mp hc).symm.trans (Option.mem_def.mp hd)
      simpa using hdigit

def DeclaredAs (text name : String) (members : Entries) (b : Block) : Prop :=
  List.Forall₂ (fun e d => e.1 = .str text → d.name = name) members b.statements

/-- What a text is called as the last segment of a reference, as the key of a component and as the
id of an operation. -/
structure Names (text name : String) : Prop where
  plain : Naming.pascalCase text = .ok name
  referenced : ∀ {root suffix front : String}, (root, suffix) ∈ Schema.collections →
    Text.IsFront '/' front → ∀ location,
      Schema.referencedName (root ++ front ++ Pointer.escape text) location = .ok (name ++ suffix)
  declared : ∀ {components s t bs}, Returns (componentBlocks (.ofEntries components)) s bs t →
    List.Forall₂ (fun part b => DeclaredAs text (name ++ part.suffix)
      (components.get part.key).members b) sections bs
  bound : ∀ {components options c s b t}, c.operation.get "operationId" = .str text →
    Returns (bind components options c) s b t →
      b.metadata.componentName = withoutControllers name

theorem referencedName_of_segment {text name root suffix front : String}
    (hname : Naming.pascalCase text = .ok name) (hroot : (root, suffix) ∈ Schema.collections)
    (hfront : Text.IsFront '/' front) (location : Option String) :
    Schema.referencedName (root ++ front ++ Pointer.escape text) location =
      .ok (name ++ suffix) := by
  have htarget : Schema.target? (root ++ (front ++ Pointer.escape text)) Schema.collections =
      some (suffix, front ++ Pointer.escape text) :=
    Declaration.target?_append hroot (by decide) _
  rw [Schema.referencedName, String.append_assoc, htarget]
  dsimp only
  rw [Text.getLastD_splitAt hfront (Pointer.not_mem_escape text), Pointer.unescape_escape, hname]
  rfl

theorem declaredAs_of_declares {part : BodySection} {typed : Value → String → Except Fault TypeExpr}
    {text name : String} {members : Entries} {b : Block}
    (hname : Naming.pascalCase text = .ok name)
    (h : List.Forall₂ (Declares part typed) members b.statements) :
    DeclaredAs text (name ++ part.suffix) members b := by
  refine h.imp ?_
  rintro ⟨key, v⟩ d ⟨own, -, hown, hd, -⟩ rfl
  rw [Declaration.pascalCaseOf_str, hname] at hown
  cases hown
  exact hd

theorem componentName_str {text name : String} (h : Naming.pascalCase text = .ok name) :
    componentName (.str text) = .ok (withoutControllers name) := by
  rw [componentName, Declaration.pascalCaseOf_str, h]
  rfl

theorem names_of_pascalCase {text name : String} (hfilled : text ≠ "")
    (h : Naming.pascalCase text = .ok name) : Names text name where
  plain := h
  referenced := referencedName_of_segment h
  declared := by
    intro components s t bs hbs
    obtain ⟨schemas, bodies, answers, u, v, rfl, hschemas, hbodies, hanswers⟩ :=
      Declaration.componentBlocks_returns hbs
    exact .cons (declaredAs_of_declares h (Declaration.declareSchemas_returns hschemas))
      (.cons (declaredAs_of_declares h (Declaration.declareBodies_returns hbodies))
        (.cons (declaredAs_of_declares h (Declaration.declareBodies_returns hanswers)) .nil))
  bound := by
    intro components options c s b t hid hb
    have hpresents : c.Presents text := ⟨hid, hfilled⟩
    obtain ⟨id, p, log, u, hbound⟩ := bind_steps hb
    obtain ⟨route, parameters, v, hmade⟩ := plan_returns hbound.planned
    cases hpresents.id_eq.symm.trans hbound.called
    have hcomponent := hmade.name
    rw [componentName_str h] at hcomponent
    rw [hbound.metadata]
    exact (Except.ok.inj hcomponent).symm

/-- A text of ASCII with a letter or a digit is called by an identifier wherever it is referred to
or declared as a component. As the id of an operation it is too, unless its type name has nothing
but the word `Controller` in front of a digit or of the end. -/
theorem names_isTypeName {text : String} (hascii : ∀ c ∈ text.toList, c.toNat < 0x80)
    (hletter : ∃ c ∈ text.toList, c.isAlphanum = true) :
    ∃ name, Names text name ∧
      (∀ collection ∈ Schema.collections, IsTypeName (name ++ collection.2)) ∧
      (∀ part ∈ sections, IsTypeName (name ++ part.suffix)) ∧
      (∀ c ∈ (withoutControllers name).toList, IsTypeChar c) ∧
      (IsTypeName (withoutControllers name) ↔ ¬ OnlyControllers name) := by
  have hcollections : ∀ collection ∈ Schema.collections, ∀ c ∈ collection.2.toList,
      IsTypeChar c := by
    decide
  have hsections : ∀ part ∈ sections, ∀ c ∈ part.suffix.toList, IsTypeChar c := by decide
  have hfilled : text ≠ "" := by
    rintro rfl
    obtain ⟨c, hc, -⟩ := hletter
    cases hc
  obtain ⟨name, hname, htype⟩ := Naming.pascalCase_isTypeName hascii hletter
  exact ⟨name, names_of_pascalCase hfilled hname,
    fun collection hmem => htype.append (hcollections collection hmem),
    fun part hmem => htype.append (hsections part hmem),
    isTypeChar_of_mem_withoutControllers htype, isTypeName_withoutControllers_iff htype⟩

theorem names_isTypeName_petStore :
    (∀ c ∈ "2nd pet-store".toList, c.toNat < 0x80) ∧
      (∃ c ∈ "2nd pet-store".toList, c.isAlphanum = true) ∧
      ∃ name, Names "2nd pet-store" name ∧
        (∀ collection ∈ Schema.collections, IsTypeName (name ++ collection.2)) ∧
        (∀ part ∈ sections, IsTypeName (name ++ part.suffix)) ∧
        (∀ c ∈ (withoutControllers name).toList, IsTypeChar c) ∧
        (IsTypeName (withoutControllers name) ↔ ¬ OnlyControllers name) := by
  have hascii : ∀ c ∈ "2nd pet-store".toList, c.toNat < 0x80 := by decide
  have hletter : ∃ c ∈ "2nd pet-store".toList, c.isAlphanum = true := by decide
  exact ⟨hascii, hletter, names_isTypeName hascii hletter⟩

def controllerTwo : Call where
  operation := [(.str "operationId", .str "controller2")]
  verb := "get"
  route := .str "/pets"
  routeParameters := .null

theorem controllerTwo_name : ∃ b t, Returns (bind .null .default controllerTwo) .start b t ∧
    b.metadata.componentName = "2" ∧ ¬ IsTypeName "2" := by
  obtain ⟨b, t, h, hname⟩ : ∃ b t, Returns (bind .null .default controllerTwo) .start b t ∧
      b.metadata.componentName = "2" :=
    exists_of_map_eq_some (by decide +kernel)
  refine ⟨b, t, h, hname, fun htype => ?_⟩
  have hstart := htype.start '2' rfl
  exact absurd hstart (by decide)

end Operation

end ApiBindings
