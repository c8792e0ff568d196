import ApiBindings.Proofs.Operation.Merge
import ApiBindings.Proofs.Operation.Route

/-!
Placeholders that are typed as texts for want of a declaration. Main statement: where all parameters
are written out in their places, these are the placeholders whose path parameter, the last one of
that name, is missing or has no schema, and one event is told of each.
-/

namespace ApiBindings

def Tells (s t : Log) (event : Event) : Prop := ∃ events, t = s ++ events ∧ event ∈ events

theorem tells_append {s events : Log} {event : Event} :
    Tells s (s ++ events) event ↔ event ∈ events := by
  constructor
  · rintro ⟨more, heq, hmem⟩
    rw [List.append_cancel_left heq]
    exact hmem
  · exact fun h => ⟨events, rfl, h⟩

theorem registrations_told {names : List String} {origin : String} {s t : Session} {a : Unit}
    (h : Returns (names.forM fun name => Declaring.register name origin) s a t) :
    ∃ events, t.log = s.log ++ events ∧ ∀ e ∈ events, e.topic = .components := by
  induction names generalizing s with
  | nil =>
    obtain ⟨-, rfl⟩ := returns_pure.mp h
    exact ⟨[], (List.append_nil _).symm, nofun⟩
  | cons name names ih =>
    obtain ⟨_, u, hname, hrest⟩ := returns_bind.mp h
    obtain ⟨events, hevents, htopic⟩ := ih hrest
    obtain ⟨-, -, hlog⟩ := returns_register hname
    refine ⟨_, by rw [hevents, hlog, List.append_assoc], fun e he => ?_⟩
    rcases List.mem_append.mp he with he | he
    · obtain ⟨x, -, hx⟩ := List.mem_filterMap.mp he
      obtain ⟨earlier, -, rfl⟩ := Option.map_eq_some_iff.mp hx
      rfl
    · exact htopic e he

namespace Operation

open Parameter (key)

/-- The item is the parameter, written out in its place, with texts for name and position. -/
structure IsInline (item : Value) (p : Parameter) : Prop where
  mapping : ∃ label, item = .map label p.entries
  unreferred : Schema.reference? p.entries = none
  name : (∃ name, p.name = .str name) ∧ p.entries.get "name" = .scalar p.name
  position : (∃ position, p.position = .str position) ∧ p.entries.get "in" = .scalar p.position

/-- The value lists the parameters, all of them inline. A list of none may be missing. -/
def ListsInline (v : Value) (ps : List Parameter) : Prop :=
  v.isFilled = false ∧ ps = [] ∨ ∃ items, v = .list items ∧ List.Forall₂ IsInline items ps

theorem IsInline.labelled {item : Value} {p : Parameter} (h : IsInline item p) : p.Labelled := by
  obtain ⟨⟨name, hname⟩, -⟩ := h.name
  obtain ⟨⟨position, hposition⟩, -⟩ := h.position
  rw [Parameter.Labelled, hname, hposition]
  exact ⟨rfl, rfl⟩

theorem ListsInline.items {v : Value} {ps : List Parameter} (h : ListsInline v ps) :
    ∃ items, List.Forall₂ IsInline items ps ∧ parameterItems v = .ok items ∧
      v.filled?.getD (.list []) = .list items := by
  rcases h with ⟨hempty, rfl⟩ | ⟨items, rfl, hitems⟩
  · exact ⟨[], .nil, by rw [parameterItems, hempty]; rfl, by rw [Value.filled?, hempty]; rfl⟩
  · cases items with
    | nil => exact ⟨[], hitems, rfl, rfl⟩
    | cons item items => exact ⟨_, hitems, rfl, rfl⟩

section Merging

variable {components : Value} {item : Value} {p : Parameter} {merged : List Parameter} {s : Log}

theorem IsInline.mergeItem (h : IsInline item p) :
    Returns (mergeItem components merged item) s (mergeParameter p merged) s := by
  obtain ⟨label, rfl⟩ := h.mapping
  have hlookUp : lookUpParameter components (.map label p.entries) =
      pure (some (.map label p.entries)) := by
    rw [lookUpParameter, h.unreferred]
  have hp : Parameter.ofEntries p.entries = .ok p := by
    rw [Parameter.ofEntries, h.name.2, h.position.2]
    rfl
  refine returns_bind.mpr ⟨_, s, hlookUp ▸ returns_pure.mpr ⟨rfl, rfl⟩, ?_⟩
  exact returns_lift_bind.mpr ⟨_, rfl, returns_lift_bind.mpr ⟨p, hp, returns_pure.mpr ⟨rfl, rfl⟩⟩⟩

theorem mergeItems_inline {items : List Value} {ps : List Parameter}
    (h : List.Forall₂ IsInline items ps) :
    Returns (items.foldlM (Operation.mergeItem components) merged) s
      (ps.foldl (fun merged p => mergeParameter p merged) merged) s := by
  induction h generalizing merged with
  | nil => exact returns_pure.mpr ⟨rfl, rfl⟩
  | cons hitem _ ih =>
    rw [List.foldlM_cons]
    exact returns_bind.mpr ⟨_, s, hitem.mergeItem, ih⟩

theorem mergeParameters_inline (components : Value) (s : Log) {ofRoute ofOperation : Value}
    {route operation : List Parameter} (hroute : ListsInline ofRoute route)
    (hoperation : ListsInline ofOperation operation) :
    ∃ merged, Merges (route ++ operation) merged ∧
      Returns (mergeParameters components ofRoute ofOperation) s merged s := by
  obtain ⟨xs, hxs, hxs', -⟩ := hroute.items
  obtain ⟨ys, hys, hys', -⟩ := hoperation.items
  have hitems := List.rel_append hxs hys
  have hlabelled : ∀ p ∈ route ++ operation, p.Labelled := by
    intro p hp
    obtain ⟨item, -, hitem⟩ := exists_left_of_forall₂ hitems hp
    exact hitem.labelled
  have hempty : Merges [] [] := ⟨nofun, .nil, rfl, nofun⟩
  have hmerges := merges_foldl hempty hlabelled
  rw [List.nil_append] at hmerges
  refine ⟨_, hmerges, ?_⟩
  rw [mergeParameters_eq]
  exact returns_lift_bind.mpr ⟨xs, hxs', returns_lift_bind.mpr ⟨ys, hys', mergeItems_inline hitems⟩⟩

end Merging

/-- The path parameter that declares the placeholder: the last one of its name. -/
def declaring? (ps : List Parameter) (name : String) : Option Parameter :=
  lastOf ps (.str name, .str "path")

theorem isIn_and_hasName_iff {p : Parameter} {name : String} :
    p.isIn "path" = true ∧ p.hasName name = true ↔ p.key = (.str name, .str "path") := by
  rw [Parameter.isIn, Parameter.hasName, Scalar.equals_str, Scalar.equals_str, key, Prod.mk.injEq,
    and_comm]

theorem Merges.find?_path {found merged : List Parameter} (h : Merges found merged)
    (name : String) : (merged.filter (·.isIn "path")).find? (·.hasName name) =
      declaring? found name := by
  cases hfind : (merged.filter (·.isIn "path")).find? (·.hasName name) with
  | some p =>
    obtain ⟨hmem, hin⟩ := List.mem_filter.mp (List.mem_of_find?_eq_some hfind)
    have hname : p.hasName name = true := by simpa using List.find?_some hfind
    rw [declaring?, ← isIn_and_hasName_iff.mp ⟨hin, hname⟩, h.last p hmem]
  | none =>
    cases hlast : declaring? found name with
    | none => rfl
    | some q =>
      have hkey : q.key = (.str name, .str "path") := by simpa using List.find?_some hlast
      have hfound : q ∈ found := List.mem_reverse.mp (List.mem_of_find?_eq_some hlast)
      -- what has been found is in the merged list under its name and position
      have hmerged : q.key ∈ merged.map key := by
        rw [h.order, List.mem_eraseDups]
        exact List.mem_map_of_mem hfound
      obtain ⟨p, hp, hpkey⟩ := List.mem_map.mp hmerged
      obtain ⟨hin, hname⟩ := isIn_and_hasName_iff.mpr (hpkey.trans hkey)
      have hnone := List.find?_eq_none.mp hfind p (List.mem_filter.mpr ⟨hp, hin⟩)
      exact absurd hname (by simpa using hnone)

def LacksSchema (found : Option Parameter) : Prop :=
  ∀ p, found = some p → p.entries.get? "schema" = none

theorem pathMembers_told {parameters : List Parameter} {operationId : String} {s t : Log}
    {names : List String} {members : List Member}
    (h : Returns (names.mapM fun name => pathMember name parameters operationId) s members t) :
    members.map Member.key = names ∧
      (∀ name ∈ names, LacksSchema (parameters.find? (·.hasName name)) →
        textMember name ∈ members) ∧
      ∃ events, t = s ++ events ∧ ∀ event, event ∈ events ↔
        ∃ name ∈ names, LacksSchema (parameters.find? (·.hasName name)) ∧
          event = undeclared name operationId := by
  induction names generalizing s members with
  | nil =>
    obtain ⟨rfl, rfl⟩ := returns_mapM_nil.mp h
    exact ⟨rfl, nofun, [], (List.append_nil _).symm, by simp⟩
  | cons name names ih =>
    obtain ⟨m, u, ms, hm, hms, rfl⟩ := returns_mapM_cons.mp h
    obtain ⟨hkeys, htexts, events, rfl, hevents⟩ := ih hms
    simp only [List.forall_mem_cons, List.map_cons, hkeys, List.exists_mem_cons_iff]
    have hrest : ∀ x ∈ names, LacksSchema (parameters.find? (·.hasName x)) →
        textMember x ∈ m :: ms := fun x hx hlacks => List.mem_cons_of_mem m (htexts x hx hlacks)
    rcases pathMember_cases hm with
      ⟨p, schema, hp, hschema, -, -, hkey, rfl⟩ | ⟨hlacks, rfl, rfl⟩
    · have hdeclared : ¬ LacksSchema (parameters.find? (·.hasName name)) := by
        intro hlacks
        rw [hlacks p hp] at hschema
        cases hschema
      refine ⟨by rw [hkey], ⟨fun hlacks => absurd hlacks hdeclared, hrest⟩, events, rfl, ?_⟩
      intro event
      rw [hevents]
      exact ⟨.inr, fun h => h.resolve_left fun h => hdeclared h.1⟩
    · refine ⟨rfl, ⟨fun _ => List.mem_cons_self, hrest⟩,
        undeclared name operationId :: events, by simp, fun event => ?_⟩
      rw [List.mem_cons, hevents]
      exact or_congr_left ⟨fun h => ⟨hlacks, h⟩, fun h => h.2⟩

theorem undeclared_injective {name other operationId : String}
    (h : undeclared name operationId = undeclared other operationId) : name = other := by
  have htext := congrArg Event.text h
  simpa only [undeclared, String.append_left_inj, String.append_right_inj] using htext

variable {components : Value} {options : Options} {c : Call} {s t : Session} {b : Bound}

/-- The binding of the planned operation tells the event, and types the placeholder as a text. -/
def FallsBack (s t : Session) (p : Plan) (name : String) : Prop :=
  Tells s.log t.log (undeclared name p.id) ∧ textMember name ∈ p.types.pathMembers

/-- Without hooks, a placeholder falls back exactly if no path parameter with a schema declares
it. -/
theorem bind_fallsBack_iff {route : String} {ofRoute ofOperation : List Parameter}
    (h : Returns (bind components options c) s b t) (hoff : options.bindings = false)
    (hr : c.route = .str route) (hroute : ListsInline c.routeParameters ofRoute)
    (hoperation : ListsInline (c.operation.get "parameters") ofOperation) :
    ∃ id p log, c.id = .ok id ∧ Returns (c.plan components options id) s.log p log ∧
      b.metadata = p.metadata c.operation ∧
      p.types.pathMembers.map Member.key = Naming.placeholders route ∧
      ∀ name, FallsBack s t p name ↔ name ∈ Naming.placeholders route ∧
        LacksSchema (declaring? (ofRoute ++ ofOperation) name) := by
  obtain ⟨-, -, hidParam, hpath⟩ := bind_route hr h
  have hall : b.metadata.paramsInPath = Naming.placeholders route := by
    rw [hpath, hidParam, Route.idParam_of, hoff, List.filter_eq_self]
    simp
  obtain ⟨id, p, log, u, hbound⟩ := bind_steps h
  obtain ⟨event, rfl, -, hlevel⟩ := hbound.told
  obtain ⟨text, parameters, v, hmade⟩ := plan_returns hbound.planned
  obtain ⟨merged, hmerges, hinline⟩ := mergeParameters_inline components s.log hroute hoperation
  obtain ⟨rfl, rfl⟩ := hinline.unique hmade.merged
  obtain ⟨hkeys, htexts, events, rfl, hevents⟩ := pathMembers_told hmade.types.pathMembers
  obtain ⟨clashes, hclashes, htopic⟩ := registrations_told hbound.named
  rw [hbound.metadata] at hall
  have htold : ∀ name, Tells s.log (u.log ++ [event]) (undeclared name id.text) ↔
      undeclared name id.text ∈ events := by
    intro name
    rw [hclashes, List.append_assoc, List.append_assoc, tells_append, List.mem_append,
      List.mem_append, List.mem_singleton, or_iff_left]
    -- clashes are told on another topic, and the last event on another level
    rintro (hclash | rfl)
    · cases htopic _ hclash
    · cases hlevel
  refine ⟨id, p, _, hbound.called, hbound.planned, hbound.metadata, hkeys.trans hall,
    fun name => ?_⟩
  rw [FallsBack, hmade.idText, htold, hevents, ← hmerges.find?_path name, ← hall]
  constructor
  · rintro ⟨⟨other, hother, hlacks, heq⟩, -⟩
    rw [undeclared_injective heq]
    exact ⟨hother, hlacks⟩
  · rintro ⟨hname, hlacks⟩
    exact ⟨⟨name, hname, hlacks, rfl⟩, htexts name hname hlacks⟩

end Operation

end ApiBindings
