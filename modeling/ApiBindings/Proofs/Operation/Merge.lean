import ApiBindings.Proofs.Document.Pointer
import ApiBindings.Proofs.Operation.Parameters
import Mathlib.Data.List.Nodup

/-!
Merging the parameters of a path and of an operation. Main statement: of the parameters with one
name and position the last one stays, in the place of the first; so each is there once, and that of
the operation wins.
-/

namespace ApiBindings

def Scalar.isLabel : Scalar → Bool
  | .null => true
  | .str _ => true
  | _ => false

theorem Scalar.isKey_of_isLabel {a : Scalar} (ha : a.isLabel = true) (b : Scalar) :
    a.isKey b = true ↔ a = b := by
  cases a with
  | null => cases b <;> simp [isKey, equals, integer?]
  | str text => rw [str_isKey, eq_comm]
  | _ => cases ha

namespace Operation

namespace Parameter

def key (p : Parameter) : Scalar × Scalar := (p.name, p.position)

/-- Name and position are texts or missing, so that they are compared as they are. -/
def Labelled (p : Parameter) : Prop := p.name.isLabel = true ∧ p.position.isLabel = true

theorem Labelled.isSameAs_iff {p q : Parameter} (hp : p.Labelled) :
    p.isSameAs q = true ↔ p.key = q.key := by
  rw [isSameAs, Bool.and_eq_true, Scalar.isKey_of_isLabel hp.1, Scalar.isKey_of_isLabel hp.2, key,
    key, Prod.mk.injEq]

end Parameter

open Parameter (key)

section Step

variable {p q : Parameter} {ps : List Parameter}

theorem keys_mergeParameter (hps : ∀ q ∈ ps, q.Labelled) : (mergeParameter p ps).map key =
    if p.key ∈ ps.map key then ps.map key else ps.map key ++ [p.key] := by
  induction ps with
  | nil => simp [mergeParameter]
  | cons r ps ih =>
    rw [List.forall_mem_cons] at hps
    by_cases hr : r.key = p.key
    · simp [mergeParameter, if_pos (hps.1.isSameAs_iff.mpr hr), hr]
    · have hne : ¬ p.key = r.key := fun h => hr h.symm
      rw [mergeParameter, if_neg fun h => hr (hps.1.isSameAs_iff.mp h), List.map_cons, ih hps.2]
      by_cases hmem : p.key ∈ ps.map key <;> simp [hmem, hne]

theorem mem_mergeParameter_cases (hps : ∀ q ∈ ps, q.Labelled) (hdistinct : (ps.map key).Nodup)
    (h : q ∈ mergeParameter p ps) : q = p ∨ q ∈ ps ∧ q.key ≠ p.key := by
  induction ps with
  | nil => exact .inl (List.mem_singleton.mp h)
  | cons r ps ih =>
    rw [List.forall_mem_cons] at hps
    rw [List.map_cons, List.nodup_cons] at hdistinct
    by_cases hr : r.key = p.key
    · rw [mergeParameter, if_pos (hps.1.isSameAs_iff.mpr hr)] at h
      refine (List.mem_cons.mp h).imp_right fun hq => ⟨List.mem_cons_of_mem r hq, fun hkey => ?_⟩
      exact hdistinct.1 (List.mem_map.mpr ⟨q, hq, hkey.trans hr.symm⟩)
    · rw [mergeParameter, if_neg fun h => hr (hps.1.isSameAs_iff.mp h)] at h
      rcases List.mem_cons.mp h with rfl | h
      · exact .inr ⟨List.mem_cons_self, hr⟩
      · exact (ih hps.2 hdistinct.2 h).imp_right fun hq => ⟨List.mem_cons_of_mem r hq.1, hq.2⟩

theorem labelled_mergeParameter (hp : p.Labelled) (hps : ∀ q ∈ ps, q.Labelled) :
    ∀ q ∈ mergeParameter p ps, q.Labelled := by
  intro q hq
  rcases mem_mergeParameter hq with rfl | hq
  · exact hp
  · exact hps q hq

end Step

def lastOf (ps : List Parameter) (name : Scalar × Scalar) : Option Parameter :=
  ps.reverse.find? fun p => p.key = name

theorem lastOf_concat (ps : List Parameter) (p : Parameter) (name : Scalar × Scalar) :
    lastOf (ps ++ [p]) name = if p.key = name then some p else lastOf ps name := by
  rw [lastOf, List.reverse_append, List.reverse_singleton, List.singleton_append, List.find?_cons]
  by_cases h : p.key = name <;> simp [h, lastOf]

theorem lastOf_append (ps qs : List Parameter) (name : Scalar × Scalar) :
    lastOf (ps ++ qs) name = (lastOf qs name).or (lastOf ps name) := by
  rw [lastOf, List.reverse_append, List.find?_append, lastOf, lastOf]

theorem exists_lastOf {ps : List Parameter} {q : Parameter} {name : Scalar × Scalar} (hq : q ∈ ps)
    (hkey : q.key = name) : ∃ p, lastOf ps name = some p ∧ p ∈ ps := by
  have hsome : (lastOf ps name).isSome = true :=
    List.find?_isSome.mpr ⟨q, List.mem_reverse.mpr hq, by simpa using hkey⟩
  obtain ⟨p, hp⟩ := Option.isSome_iff_exists.mp hsome
  exact ⟨p, hp, List.mem_reverse.mp (List.mem_of_find?_eq_some hp)⟩

theorem eraseDups_concat {α : Type} [BEq α] [LawfulBEq α] [DecidableEq α] (xs : List α) (x : α) :
    (xs ++ [x]).eraseDups = if x ∈ xs then xs.eraseDups else xs.eraseDups ++ [x] := by
  rw [List.eraseDups_append]
  by_cases h : x ∈ xs <;> simp [List.removeAll, h, List.eraseDups_cons]

/-- Of the parameters of each name and position the merged list has the last one, in the place where
the first one was found. -/
structure Merges (found merged : List Parameter) : Prop where
  labelled : ∀ p ∈ merged, p.Labelled
  distinct : (merged.map key).Nodup
  order : merged.map key = (found.map key).eraseDups
  last : ∀ p ∈ merged, lastOf found p.key = some p

theorem Merges.step {found merged : List Parameter} {p : Parameter} (h : Merges found merged)
    (hp : p.Labelled) : Merges (found ++ [p]) (mergeParameter p merged) where
  labelled := labelled_mergeParameter hp h.labelled
  distinct := by
    rw [keys_mergeParameter h.labelled]
    split_ifs with hmem
    · exact h.distinct
    · rw [← List.concat_eq_append]
      exact h.distinct.concat hmem
  order := by
    have hmem : p.key ∈ merged.map key ↔ p.key ∈ found.map key := by
      rw [h.order, List.mem_eraseDups]
    rw [keys_mergeParameter h.labelled, List.map_append, List.map_singleton, eraseDups_concat,
      h.order]
    simp only [← h.order, hmem]
  last := by
    intro q hq
    rw [lastOf_concat]
    rcases mem_mergeParameter_cases h.labelled h.distinct hq with rfl | ⟨hq, hne⟩
    · rw [if_pos rfl]
    · rw [if_neg fun heq => hne heq.symm, h.last q hq]

theorem merges_foldl {found merged rest : List Parameter} (h : Merges found merged)
    (hrest : ∀ p ∈ rest, p.Labelled) :
    Merges (found ++ rest) (rest.foldl (fun merged p => mergeParameter p merged) merged) := by
  induction rest generalizing found merged with
  | nil =>
    rw [List.append_nil]
    exact h
  | cons p rest ih =>
    rw [List.forall_mem_cons] at hrest
    have hnext := ih (h.step hrest.1) hrest.2
    rw [List.append_assoc, List.singleton_append] at hnext
    exact hnext

section Items

def mergeItem (components : Value) (merged : List Parameter) (item : Value) :
    Telling (List Parameter) := do
  match ← lookUpParameter components item with
  | none => return merged
  | some found => return mergeParameter (← Parameter.ofEntries (← found.entries)) merged

theorem mergeParameters_eq (components ofRoute ofOperation : Value) :
    mergeParameters components ofRoute ofOperation = (do
      let items := (← parameterItems ofRoute) ++ (← parameterItems ofOperation)
      items.foldlM (mergeItem components) []) :=
  rfl

def sharedName : Value → String
  | .scalar (.str ref) => Pointer.unescape ((Text.dropStart? Schema.parametersRoot ref).getD "")
  | _ => ""

/-- The value that an item of a parameter list stands for: what a reference leads to, or itself. -/
def standsFor (shared : Entries) (item : Value) : Value :=
  match Schema.reference? item.members with
  | some ref => shared.get (sharedName ref)
  | none => item

def scalarOf : Value → Scalar
  | .scalar s => s
  | _ => .null

def found? (shared : Entries) (item : Value) : Option Parameter :=
  match standsFor shared item with
  | .map _ es => some ⟨scalarOf (Entries.get es "name"), scalarOf (Entries.get es "in"), es⟩
  | _ => none

/-- An item of a parameter list that can be read: if it is a reference, then to a shared parameter,
which is a mapping if it is there; names and positions are texts or missing. -/
structure Readable (shared : Entries) (item : Value) : Prop where
  reference : ∀ ref, Schema.reference? item.members = some ref →
    ∃ path, ref = .str (Schema.parametersRoot ++ path)
  mapping : ∀ ref, Schema.reference? item.members = some ref →
    standsFor shared item = .null ∨ (standsFor shared item).isMap = true
  label : ∀ name ∈ ["name", "in"], ∃ s : Scalar, s.isLabel = true ∧
    (standsFor shared item).members.get name = .scalar s

theorem parameter_of_readable {shared : Entries} {item : Value}
    (h : Readable shared item) {label : Option Nat} {fs : Entries}
    (hfs : standsFor shared item = .map label fs) :
    ∃ p, Parameter.ofEntries fs = .ok p ∧ found? shared item = some p ∧ p.Labelled := by
  obtain ⟨name, hname, hget⟩ := h.label "name" (by simp)
  obtain ⟨position, hposition, hget'⟩ := h.label "in" (by simp)
  rw [hfs] at hget hget'
  have hget : Entries.get fs "name" = .scalar name := hget
  have hget' : Entries.get fs "in" = .scalar position := hget'
  refine ⟨⟨name, position, fs⟩, ?_, ?_, hname, hposition⟩
  · rw [Parameter.ofEntries, hget, hget']
    rfl
  · rw [found?, hfs]
    simp only [hget, hget', scalarOf]

variable {components : Value} {es shared : Entries} {item : Value} {s : Log}
  (hcomponents : components.entriesOrNone = .ok es)
  (hshared : (es.get "parameters").entriesOrNone = .ok shared)
include hcomponents hshared

theorem lookUpParameter_returns (h : Readable shared item) : ∃ t,
    Returns (lookUpParameter components item) s
      (if (standsFor shared item).isMap then some (standsFor shared item) else none) t := by
  cases item with
  | map label fs =>
    cases href : Schema.reference? fs with
    | none =>
      have hself : standsFor shared (.map label fs) = .map label fs := by
        rw [standsFor, Value.members, href]
      refine ⟨s, ?_⟩
      rw [hself, lookUpParameter, href]
      exact returns_pure.mpr ⟨rfl, rfl⟩
    | some ref =>
      obtain ⟨path, rfl⟩ := h.reference ref href
      have hname : sharedName (.str (Schema.parametersRoot ++ path)) = Pointer.unescape path := by
        rw [sharedName, Text.dropStart?_append, Option.getD_some]
      have hstands : standsFor shared (.map label fs) = shared.get (Pointer.unescape path) := by
        rw [standsFor, Value.members, href, ← hname]
      have hmapping := h.mapping _ href
      rw [hstands] at hmapping ⊢
      rw [lookUpParameter, href]
      refine exists_returns_lift_bind ⟨_, rfl, ?_⟩
      rw [Text.dropStart?_append]
      refine exists_returns_lift_bind
        ⟨es, hcomponents, exists_returns_lift_bind ⟨shared, hshared, ?_⟩⟩
      -- a parameter that is missing is told of and left out
      rcases hmapping with hnull | hmap
      · rw [hnull]
        exact ⟨_, returns_bind.mpr ⟨(), _, returns_modify.mpr rfl, returns_pure.mpr ⟨rfl, rfl⟩⟩⟩
      · rw [if_pos hmap]
        cases hfound : shared.get (Pointer.unescape path) with
        | map inner gs => exact ⟨s, returns_pure.mpr ⟨rfl, rfl⟩⟩
        | _ =>
          rw [hfound] at hmap
          cases hmap
  | _ => exact ⟨s, returns_pure.mpr ⟨rfl, rfl⟩⟩

theorem mergeItem_returns (h : Readable shared item) (merged : List Parameter) (s : Log) : ∃ t,
    Returns (mergeItem components merged item) s
      (match found? shared item with
        | some p => mergeParameter p merged
        | none => merged) t := by
  obtain ⟨t, hlookUp⟩ := lookUpParameter_returns (s := s) hcomponents hshared h
  refine ⟨t, returns_bind.mpr ⟨_, t, hlookUp, ?_⟩⟩
  cases hstands : standsFor shared item with
  | map label fs =>
    obtain ⟨p, hp, hfound, -⟩ := parameter_of_readable h hstands
    rw [hfound]
    refine returns_lift_bind.mpr ⟨fs, rfl, ?_⟩
    exact returns_lift_bind.mpr ⟨p, hp, returns_pure.mpr ⟨rfl, rfl⟩⟩
  | _ =>
    rw [found?, hstands]
    exact returns_pure.mpr ⟨rfl, rfl⟩

theorem mergeItems_returns {items : List Value} (h : ∀ item ∈ items, Readable shared item)
    (merged : List Parameter) (s : Log) :
    ∃ t, Returns (items.foldlM (mergeItem components) merged) s
      ((items.filterMap (found? shared)).foldl
        (fun merged p => mergeParameter p merged) merged) t := by
  induction items generalizing merged s with
  | nil => exact ⟨s, returns_pure.mpr ⟨rfl, rfl⟩⟩
  | cons item items ih =>
    rw [List.forall_mem_cons] at h
    obtain ⟨t, hitem⟩ := mergeItem_returns hcomponents hshared h.1 merged s
    rw [List.foldlM_cons, List.filterMap_cons]
    cases hfound : found? shared item with
    | none =>
      rw [hfound] at hitem
      obtain ⟨u, hitems⟩ := ih h.2 merged t
      exact ⟨u, returns_bind.mpr ⟨merged, t, hitem, hitems⟩⟩
    | some p =>
      rw [hfound] at hitem
      obtain ⟨u, hitems⟩ := ih h.2 (mergeParameter p merged) t
      exact ⟨u, returns_bind.mpr ⟨_, t, hitem, hitems⟩⟩

omit hcomponents hshared in
theorem labelled_of_found? {items : List Value} (h : ∀ item ∈ items, Readable shared item) :
    ∀ p ∈ items.filterMap (found? shared), p.Labelled := by
  intro p hp
  obtain ⟨item, hitem, hfound⟩ := List.mem_filterMap.mp hp
  cases hstands : standsFor shared item with
  | map label fs =>
    obtain ⟨q, -, hq, hlabelled⟩ := parameter_of_readable (h item hitem) hstands
    rw [hq] at hfound
    cases hfound
    exact hlabelled
  | _ => simp [found?, hstands] at hfound

/-- The parameters of a path and of an operation are merged in that order, so that where both have
one of a name and position that of the operation stays. -/
theorem mergeParameters_overrides {ofRoute ofOperation : Value} {route operation : List Value}
    (hroute : parameterItems ofRoute = .ok route)
    (hoperation : parameterItems ofOperation = .ok operation)
    (hreadable : ∀ item ∈ route ++ operation, Readable shared item) (s : Log) :
    ∃ merged t, Returns (mergeParameters components ofRoute ofOperation) s merged t ∧
      Merges ((route ++ operation).filterMap (found? shared)) merged ∧
      ∀ p ∈ merged, ∀ q ∈ operation.filterMap (found? shared), q.key = p.key →
        p ∈ operation.filterMap (found? shared) := by
  obtain ⟨t, hrun⟩ := mergeItems_returns hcomponents hshared hreadable [] s
  have hempty : Merges [] [] := ⟨nofun, .nil, rfl, nofun⟩
  have hmerges := merges_foldl hempty (labelled_of_found? hreadable)
  rw [List.nil_append] at hmerges
  refine ⟨_, t, ?_, hmerges, fun p hp q hq hkey => ?_⟩
  · rw [mergeParameters_eq]
    exact returns_lift_bind.mpr ⟨route, hroute, returns_lift_bind.mpr ⟨operation, hoperation, hrun⟩⟩
  · have hlast := hmerges.last p hp
    obtain ⟨r, hr, hmem⟩ := exists_lastOf hq hkey
    rw [List.filterMap_append, lastOf_append, hr, Option.some_or] at hlast
    cases hlast
    exact hmem

end Items

section Examples

def pagingParameter (name kind : String) : Value :=
  .ofEntries [(.str "name", .str name), (.str "in", .str "query"), (.str "x-kind", .str kind)]

def pagingReference (name : String) : Value :=
  .ofEntries [(.str "$ref", .str (Schema.parametersRoot ++ name))]

def pagingShared : Entries :=
  [(.str "Page", pagingParameter "page" "shared"), (.str "Size", pagingParameter "size" "shared")]

/-- One of the parameters is overridden by a reference, and one that is given by a reference is
overridden; a third reference leads nowhere. -/
def pagingRoute : List Value :=
  [pagingReference "Page", pagingReference "Sort", pagingParameter "size" "route"]

def pagingOperation : List Value := [pagingReference "Size", pagingParameter "page" "operation"]

def pagingComponents : Value := .ofEntries [(.str "parameters", .ofEntries pagingShared)]

theorem readable_pagingParameter (name kind : String) :
    Readable pagingShared (pagingParameter name kind) where
  reference ref h := by cases h
  mapping ref h := by cases h
  label key hkey := by
    simp only [List.mem_cons, List.not_mem_nil, or_false] at hkey
    rcases hkey with rfl | rfl
    · exact ⟨.str name, rfl, rfl⟩
    · exact ⟨.str "query", rfl, rfl⟩

theorem readable_pagingReference {name : String} (hname : name ∈ ["Page", "Size", "Sort"]) :
    Readable pagingShared (pagingReference name) := by
  have href : Schema.reference? (pagingReference name).members =
      some (.str (Schema.parametersRoot ++ name)) := by
    simp only [List.mem_cons, List.not_mem_nil, or_false] at hname
    rcases hname with rfl | rfl | rfl <;> rfl
  have hstands : standsFor pagingShared (pagingReference name) = .null ∨
      ∃ kind, standsFor pagingShared (pagingReference name) = pagingParameter kind "shared" := by
    simp only [List.mem_cons, List.not_mem_nil, or_false] at hname
    rcases hname with rfl | rfl | rfl
    · exact .inr ⟨"page", rfl⟩
    · exact .inr ⟨"size", rfl⟩
    · exact .inl rfl
  refine ⟨fun ref h => ⟨name, ?_⟩, fun ref h => hstands.imp_right ?_, fun key hkey => ?_⟩
  · exact Option.some.inj (h.symm.trans href)
  · rintro ⟨kind, heq⟩
    rw [heq]
    rfl
  · rcases hstands with heq | ⟨kind, heq⟩
    · exact ⟨.null, rfl, by rw [heq]; rfl⟩
    · obtain ⟨s, hs, hget⟩ := (readable_pagingParameter kind "shared").label key hkey
      exact ⟨s, hs, by rw [heq]; exact hget⟩

theorem mergeParameters_overrides_paging :
    (∀ item ∈ pagingRoute ++ pagingOperation, Readable pagingShared item) ∧
    ∃ merged t, Returns (mergeParameters pagingComponents (.list pagingRoute)
        (.list pagingOperation)) [] merged t ∧
      merged.map key = [(.str "page", .str "query"), (.str "size", .str "query")] ∧
      ∀ p ∈ merged, p ∈ pagingOperation.filterMap (found? pagingShared) := by
  have hreadable : ∀ item ∈ pagingRoute ++ pagingOperation, Readable pagingShared item := by
    simp only [pagingRoute, pagingOperation, List.cons_append, List.nil_append,
      List.forall_mem_cons]
    exact ⟨readable_pagingReference (by simp), readable_pagingReference (by simp),
      readable_pagingParameter _ _, readable_pagingReference (by simp),
      readable_pagingParameter _ _, nofun⟩
  have hroute : parameterItems (.list pagingRoute) = .ok pagingRoute := rfl
  have hoperation : parameterItems (.list pagingOperation) = .ok pagingOperation := rfl
  have hcomponents : pagingComponents.entriesOrNone = .ok pagingComponents.members := rfl
  have hshared : (pagingComponents.members.get "parameters").entriesOrNone = .ok pagingShared := rfl
  obtain ⟨merged, t, hrun, hmerges, hwins⟩ :=
    mergeParameters_overrides hcomponents hshared hroute hoperation hreadable []
  have hkeys : merged.map key = [(.str "page", .str "query"), (.str "size", .str "query")] :=
    hmerges.order.trans (by decide)
  refine ⟨hreadable, merged, t, hrun, hkeys, fun p hp => ?_⟩
  have hmem : p.key ∈ (pagingOperation.filterMap (found? pagingShared)).map key := by
    have hkey : p.key ∈ merged.map key := List.mem_map_of_mem hp
    have hfound : (pagingOperation.filterMap (found? pagingShared)).map key =
        [(.str "size", .str "query"), (.str "page", .str "query")] := by decide
    rw [hkeys] at hkey
    rw [hfound]
    simp only [List.mem_cons, List.not_mem_nil, or_false] at hkey ⊢
    exact hkey.symm
  obtain ⟨q, hq, hkey⟩ := List.mem_map.mp hmem
  exact hwins p hp q hq hkey

end Examples

end Operation

end ApiBindings
