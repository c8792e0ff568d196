import ApiBindings.Proofs.TypeExpr.Parts
import ApiBindings.Proofs.TypeText.Grammar

/-!
Rendered types. Main statement: the text of an expression reads as the expression, so its
parentheses stand wherever a connective would bind otherwise.
-/

namespace ApiBindings.TypeText

def isLiteralText (s : String) : Bool :=
  TypeTree.isValueWord s || isInteger s.toList ||
    match s.toList with
    | '"' :: cs => (quotedBody cs).any fun (_, after) => after.isEmpty
    | _ => false

def IsPlainField (f : Field) : Prop :=
  f.description.getD "" = "" ∧ f.name.toList.getLast? ≠ some '\n'

/-- Expressions whose texts the grammar has: every name a name, every token a literal, and
nothing joined of no members. -/
inductive Printable : TypeExpr → Prop where
  | primitive {name} (h : isName name.toList = true) : Printable (.primitive name)
  | named {name} (h : isName name.toList = true) : Printable (.named name)
  | literals {tokens} (hne : tokens ≠ []) (h : ∀ s ∈ tokens, isLiteralText s = true) :
      Printable (.literals tokens)
  | array {item} (h : Printable item) : Printable (.array item)
  | tuple {item length} (h : Printable item) : Printable (.tuple item length)
  | freeFormMap : Printable .freeFormMap
  | shape {fields index} (hf : ∀ p ∈ fields, IsPlainField p.1) (h : ∀ p ∈ fields, Printable p.2)
      (hi : ∀ t ∈ index, Printable t) : Printable (.shape fields index)
  | union {members} (hne : members ≠ []) (h : ∀ t ∈ members, Printable t) :
      Printable (.union members)
  | intersection {members} (hne : members ≠ []) (h : ∀ t ∈ members, Printable t) :
      Printable (.intersection members)
  | requiring {inner keys} (hne : keys ≠ []) (h : Printable inner) :
      Printable (.requiring inner keys)

def AtomFor (text : String) (v : TypeTree) : Prop := ∃ u, IsAtom text u ∧ u.flatten = v.flatten

def PartsFor (c : Connective) (text : String) (v : TypeTree) : Prop :=
  ∃ us, AreParts c text us ∧ (TypeTree.join c us).flatten = v.flatten

def TypeFor (text : String) (v : TypeTree) : Prop := ∃ u, IsType text u ∧ u.flatten = v.flatten

theorem AtomFor.factors {text : String} {v : TypeTree} (h : AtomFor text v) :
    PartsFor .intersection text v := by
  obtain ⟨u, hu, he⟩ := h
  exact ⟨[u], hu.isPart.areParts, (TypeTree.flatten_joined .intersection [u]).symm.trans he⟩

theorem PartsFor.alternatives {text : String} {v : TypeTree}
    (h : PartsFor .intersection text v) : PartsFor .union text v := by
  obtain ⟨us, hu, he⟩ := h
  refine ⟨[.joined .intersection us], hu.isPart.areParts, ?_⟩
  exact (TypeTree.flatten_joined .union _).symm.trans
    ((TypeTree.flatten_joined .intersection us).trans he)

theorem PartsFor.type {text : String} {v : TypeTree} (h : PartsFor .union text v) :
    TypeFor text v := by
  obtain ⟨us, hu, he⟩ := h
  exact ⟨_, hu.isType, (TypeTree.flatten_joined .union us).trans he⟩

theorem TypeFor.parenthesized {text : String} {v : TypeTree} (h : TypeFor text v) :
    AtomFor ("(" ++ text ++ ")") v := by
  obtain ⟨u, hu, he⟩ := h
  exact ⟨u, hu.parenthesized, he⟩

theorem PartsFor.joinWith {c : Connective} {texts : List String} {vs : List TypeTree}
    (h : List.Forall₂ (PartsFor c) texts vs) (hne : texts ≠ []) :
    PartsFor c (Text.joinWith c.separator texts) (.join c vs) := by
  have hparts : ∃ uss, List.Forall₂ (AreParts c) texts uss ∧
      TypeTree.flattenParts c uss.flatten = TypeTree.flattenParts c vs := by
    clear hne
    induction h with
    | nil => exact ⟨[], .nil, rfl⟩
    | @cons text v texts vs hp _ ih =>
      obtain ⟨us, hu, he⟩ := hp
      obtain ⟨uss, hus, hes⟩ := ih
      refine ⟨us :: uss, .cons hu hus, ?_⟩
      have hhead := congrArg (TypeTree.parts c) he
      rw [TypeTree.parts_flatten_join, ← TypeTree.flattenParts_eq_flatMap] at hhead
      rw [List.flatten_cons, TypeTree.flattenParts_append, hhead, hes]
      rfl
  obtain ⟨uss, hus, he⟩ := hparts
  exact ⟨uss.flatten, AreParts.joinWith hus hne, congrArg (TypeTree.joined c) he⟩

theorem atomFor_literal {s : String} (h : isLiteralText s = true) : AtomFor s (.literal s) := by
  simp only [isLiteralText, Bool.or_eq_true] at h
  rcases h with (h | h) | h
  · have hname : isName s.toList = true := by
      simp only [TypeTree.isValueWord, Bool.or_eq_true, beq_iff_eq] at h
      rcases h with (rfl | rfl) | rfl <;> decide
    have hatom := IsAtom.name hname
    rw [TypeTree.ofWord, if_pos h] at hatom
    exact ⟨_, hatom, rfl⟩
  · exact ⟨_, .number h, rfl⟩
  · split at h
    · rename_i cs hs
      cases hq : quotedBody cs with
      | none => simp [hq] at h
      | some q =>
        obtain ⟨body, after⟩ := q
        have ha : after = [] := by simpa [hq] using h
        subst ha
        exact ⟨_, .string hs hq, rfl⟩
    · cases h

/-- The rendered text reads as the expression at every level it can stand at bare. -/
structure Spells (t : TypeExpr) : Prop where
  alternatives : PartsFor .union t.render (.ofExpr t)
  factors : t.isAlternatives = false → PartsFor .intersection t.render (.ofExpr t)
  atom : t.isComposite = false → AtomFor t.render (.ofExpr t)

theorem AtomFor.spells {t : TypeExpr} (h : AtomFor t.render (.ofExpr t)) : Spells t :=
  ⟨h.factors.alternatives, fun _ => h.factors, fun _ => h⟩

theorem Spells.type {t : TypeExpr} (h : Spells t) : TypeFor t.render (.ofExpr t) :=
  h.alternatives.type

theorem Spells.wrapped {t : TypeExpr} (h : Spells t) :
    AtomFor (TypeExpr.parenthesized t.isComposite t.render) (.ofExpr t) := by
  cases hc : t.isComposite with
  | true => exact h.type.parenthesized
  | false => exact h.atom hc

theorem Spells.factor {t : TypeExpr} (h : Spells t) :
    PartsFor .intersection (TypeExpr.parenthesized t.isAlternatives t.render) (.ofExpr t) := by
  cases ha : t.isAlternatives with
  | true => exact h.type.parenthesized.factors
  | false => exact h.factors ha

theorem spells_literals {tokens : List String} (hne : tokens ≠ [])
    (h : ∀ s ∈ tokens, isLiteralText s = true) : Spells (.literals tokens) := by
  have hparts : List.Forall₂ (PartsFor .union) tokens (tokens.map .literal) := by
    rw [List.forall₂_map_right_iff, List.forall₂_same]
    exact fun s hs => (atomFor_literal (h s hs)).factors.alternatives
  refine ⟨?_, by simp [TypeExpr.isAlternatives], by simp [TypeExpr.isComposite]⟩
  rw [TypeExpr.render, TypeTree.ofExpr]
  exact PartsFor.joinWith hparts hne

theorem spells_array {item : TypeExpr} (h : Spells item) : Spells (.array item) := by
  obtain ⟨u, hu, he⟩ := h.wrapped
  refine AtomFor.spells ⟨.array u, ?_, congrArg TypeTree.array he⟩
  rw [TypeExpr.render]
  exact hu.array

theorem forall₂_replicate {α β : Type} {R : α → β → Prop} {a : α} {b : β} (h : R a b) (n : Nat) :
    List.Forall₂ R (List.replicate n a) (List.replicate n b) := by
  induction n with
  | zero => exact .nil
  | succ n ih => exact .cons h ih

theorem spells_tuple {item : TypeExpr} {length : Int} (h : Spells item) :
    Spells (.tuple item length) := by
  obtain ⟨u, hu, he⟩ := h.wrapped.factors.alternatives.type
  refine AtomFor.spells ⟨.tuple (List.replicate length.toNat u), ?_, ?_⟩
  · rw [TypeExpr.render]
    exact .tuple (forall₂_replicate hu _)
  · rw [TypeTree.ofExpr, TypeTree.flatten, TypeTree.flatten, TypeTree.flattenAll_eq_map,
      TypeTree.flattenAll_eq_map, List.map_replicate, List.map_replicate, he]

theorem spells_freeFormMap : Spells .freeFormMap := by
  have hany : IsType "any" (.name "any") :=
    (IsAtom.name (s := "any") (by decide)).isPart.areParts.isPart.areParts.isType
  exact AtomFor.spells ⟨_, hany.indexOnly, rfl⟩

theorem spells_requiring {inner : TypeExpr} {keys : List String} (hne : keys ≠ [])
    (h : Spells inner) : Spells (.requiring inner keys) := by
  obtain ⟨u, hu, he⟩ := h.type
  refine AtomFor.spells ⟨.requiring u keys, ?_, ?_⟩
  · rw [TypeExpr.render]
    exact hu.requiring hne
  · rw [TypeTree.ofExpr, TypeTree.flatten, TypeTree.flatten, he]

theorem spells_union {members : List TypeExpr} (hne : members ≠ [])
    (h : ∀ t ∈ members, Spells t) : Spells (.union members) := by
  have hparts : List.Forall₂ (PartsFor .union) (members.map TypeExpr.render)
      (members.map .ofExpr) := by
    rw [List.forall₂_map_left_iff, List.forall₂_map_right_iff, List.forall₂_same]
    exact fun t ht => (h t ht).alternatives
  refine ⟨?_, by simp [TypeExpr.isAlternatives], by simp [TypeExpr.isComposite]⟩
  rw [TypeExpr.render, TypeTree.ofExpr, TypeExpr.renderMembers_eq_map, TypeTree.ofAll_eq_map]
  exact PartsFor.joinWith hparts (by simpa using hne)

theorem spells_intersection {members : List TypeExpr} (hne : members ≠ [])
    (h : ∀ t ∈ members, Spells t) : Spells (.intersection members) := by
  have hparts : List.Forall₂ (PartsFor .intersection)
      (members.map fun t => TypeExpr.parenthesized t.isAlternatives t.render)
      (members.map .ofExpr) := by
    rw [List.forall₂_map_left_iff, List.forall₂_map_right_iff, List.forall₂_same]
    exact fun t ht => (h t ht).factor
  have hfactors : PartsFor .intersection (TypeExpr.intersection members).render
      (.ofExpr (.intersection members)) := by
    rw [TypeExpr.render, TypeTree.ofExpr, TypeExpr.renderFactors_eq_map, TypeTree.ofAll_eq_map]
    exact PartsFor.joinWith hparts (by simpa using hne)
  exact ⟨hfactors.alternatives, fun _ => hfactors, by simp [TypeExpr.isComposite]⟩

def MembersFor (texts : List String) (ms : List (Key × TypeTree)) : Prop :=
  ∃ ns, List.Forall₂ (fun text n => AreMembers text [n]) texts ns ∧
    TypeTree.flattenMembers ns = TypeTree.flattenMembers ms

theorem MembersFor.cons {text : String} {texts : List String} {key : Key} {u v : TypeTree}
    {ms : List (Key × TypeTree)} (h : AreMembers text [(key, u)]) (he : u.flatten = v.flatten)
    (ht : MembersFor texts ms) : MembersFor (text :: texts) ((key, v) :: ms) := by
  obtain ⟨ns, hn, hes⟩ := ht
  exact ⟨(key, u) :: ns, .cons h hn, by
    rw [TypeTree.flattenMembers, TypeTree.flattenMembers, he, hes]⟩

theorem membersFor_index {index : Option TypeExpr} (hi : ∀ t ∈ index, Spells t) :
    MembersFor (TypeExpr.renderIndex index) (TypeTree.ofIndex index) := by
  cases index with
  | none => exact ⟨[], .nil, rfl⟩
  | some t =>
    obtain ⟨u, hu, he⟩ := (hi t rfl).type
    exact .cons hu.index he ⟨[], .nil, rfl⟩

theorem membersFor_fields {fields : List (Field × TypeExpr)} {index : Option TypeExpr}
    (hf : ∀ p ∈ fields, IsPlainField p.1) (h : ∀ p ∈ fields, Spells p.2)
    (hi : ∀ t ∈ index, Spells t) :
    MembersFor (TypeExpr.renderFields fields ++ TypeExpr.renderIndex index)
      (TypeTree.ofFields fields ++ TypeTree.ofIndex index) := by
  induction fields with
  | nil => exact membersFor_index hi
  | cons p fields ih =>
    obtain ⟨hd, hn⟩ := hf p List.mem_cons_self
    obtain ⟨u, hu, he⟩ := (h p List.mem_cons_self).type
    exact .cons (hu.field hd hn) he
      (ih (fun q hq => hf q (List.mem_cons_of_mem p hq))
        fun q hq => h q (List.mem_cons_of_mem p hq))

theorem spells_shape {fields : List (Field × TypeExpr)} {index : Option TypeExpr}
    (hf : ∀ p ∈ fields, IsPlainField p.1) (h : ∀ p ∈ fields, Spells p.2)
    (hi : ∀ t ∈ index, Spells t) : Spells (.shape fields index) := by
  by_cases hempty : fields = [] ∧ index = none
  · obtain ⟨rfl, rfl⟩ := hempty
    exact AtomFor.spells ⟨_, .emptyBraces, rfl⟩
  · obtain ⟨ns, hn, he⟩ := membersFor_fields hf h hi
    refine AtomFor.spells ⟨.braces ns, ?_, congrArg TypeTree.braces he⟩
    rw [TypeExpr.render]
    · exact (AreMembers.joinWith hn).braces
    · exact fun hf hi => hempty ⟨hf, hi⟩

theorem Printable.spells {t : TypeExpr} (h : Printable t) : Spells t := by
  induction h with
  | primitive h => exact AtomFor.spells ⟨_, .name h, rfl⟩
  | named h => exact AtomFor.spells ⟨_, .name h, rfl⟩
  | literals hne h => exact spells_literals hne h
  | array _ ih => exact spells_array ih
  | tuple _ ih => exact spells_tuple ih
  | freeFormMap => exact spells_freeFormMap
  | shape hf _ _ ih ihi => exact spells_shape hf ih ihi
  | union hne _ ih => exact spells_union hne ih
  | intersection hne _ ih => exact spells_intersection hne ih
  | requiring hne _ ih => exact spells_requiring hne ih

theorem TypeFor.read {text : String} {v : TypeTree} (h : TypeFor text v) :
    ∃ u, read text = some u ∧ u.flatten = v.flatten := by
  obtain ⟨u, ⟨ts, us, hs, rfl, hr⟩, he⟩ := h
  have hscan : scan text.toList = some ts := by
    have hs := hs [] (by simp [Ends])
    rwa [List.append_nil, scan, Option.map_some, List.append_nil] at hs
  have hread := hr [] (by simp [Apart])
  rw [List.append_nil] at hread
  obtain ⟨x, hx, hv, hrest⟩ := hread
  refine ⟨.joined .union us, ?_, he⟩
  rw [TypeText.read, hscan]
  simp [hx, hv, hrest]

/-- The text of an expression is read without a rest, and as the expression up to flattening:
no nesting of the node kinds loses a pair of parentheses. -/
theorem read_render {t : TypeExpr} (h : Printable t) :
    ∃ u, read t.render = some u ∧ u.flatten = (TypeTree.ofExpr t).flatten :=
  h.spells.type.read

def labelledRows : TypeExpr :=
  .array (.intersection [.union [.named "Row", .literals ["\"a b\"", "null"]],
    .requiring (.shape [(⟨"row-id", false, none⟩, .tuple .string 2)] (some .any)) ["row-id"]])

theorem read_render_labelledRows : Printable labelledRows ∧
    ∃ u, read labelledRows.render = some u ∧
      u.flatten = (TypeTree.ofExpr labelledRows).flatten := by
  have hrow : Printable (.union [.named "Row", .literals ["\"a b\"", "null"]]) := by
    refine .union (by simp) ?_
    simp only [List.forall_mem_cons, List.not_mem_nil, false_implies, implies_true, and_true]
    exact ⟨.named (by decide), .literals (by simp) (by decide)⟩
  have hshape : Printable (.shape [(⟨"row-id", false, none⟩, .tuple .string 2)] (some .any)) := by
    refine .shape ?_ ?_ ?_
    · simp only [List.forall_mem_cons, List.not_mem_nil, false_implies, implies_true, and_true]
      exact ⟨rfl, by decide⟩
    · simp only [List.forall_mem_cons, List.not_mem_nil, false_implies, implies_true, and_true]
      exact .tuple (.primitive (by decide))
    · rintro _ ⟨rfl⟩
      exact .primitive (by decide)
  have hprintable : Printable labelledRows := by
    refine .array (.intersection (by simp) ?_)
    simp only [List.forall_mem_cons, List.not_mem_nil, false_implies, implies_true, and_true]
    exact ⟨hrow, .requiring (by simp) hshape⟩
  exact ⟨hprintable, read_render hprintable⟩

end ApiBindings.TypeText
