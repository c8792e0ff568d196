import ApiBindings.Proofs.Document.Entries
import ApiBindings.Proofs.Operation.Bind
import ApiBindings.Proofs.Operation.Faults

/-!
What calls in turn leave behind, whether they succeed or not. Main statement: each id that is
presented is remembered and refused from then on, and names are registered by the calls that
succeed only.
-/

namespace ApiBindings

def Registry.Grows (r : Registry) (names : List String) (r' : Registry) : Prop :=
  ∃ added, r'.origins = r.origins ++ added ∧ ∀ e ∈ added, e.1 ∈ names

namespace Registry.Grows

variable {r r' r'' : Registry} {names more : List String}

theorem refl (r : Registry) (names : List String) : r.Grows names r :=
  ⟨[], (List.append_nil _).symm, fun _ h => nomatch h⟩

theorem trans (h : r.Grows names r') (hm : r'.Grows more r'') : r.Grows (names ++ more) r'' := by
  obtain ⟨added, hr', hnames⟩ := h
  obtain ⟨later, hr'', hmore⟩ := hm
  refine ⟨added ++ later, by rw [hr'', hr', List.append_assoc], fun e he => ?_⟩
  rcases List.mem_append.mp he with he | he
  · exact List.mem_append_left _ (hnames e he)
  · exact List.mem_append_right _ (hmore e he)

theorem origin?_eq {name origin : String} (h : r.Grows names r')
    (ho : r.origin? name = some origin) : r'.origin? name = some origin := by
  obtain ⟨added, hr', -⟩ := h
  unfold Registry.origin? at ho ⊢
  rw [hr', List.lookup_append, ho, Option.some_or]

theorem register (r : Registry) (name origin : String) :
    r.Grows [name] (r.register name origin).1 := by
  unfold Registry.register
  split
  · exact refl r _
  · exact ⟨[(name, origin)], rfl, fun e he => by simp_all⟩

end Registry.Grows

namespace Operation

/-- An operation as JSON writes it: its keys are texts, and its id is a text if it is there. -/
structure Call.IsJson (c : Call) : Prop where
  keys : ∀ e ∈ c.operation, ∃ key, e.1 = .str key
  id : c.operation.get "operationId" = .null ∨ ∃ id, c.operation.get "operationId" = .str id

def Call.Presents (c : Call) (id : String) : Prop :=
  c.operation.get "operationId" = .str id ∧ id ≠ ""

variable {components : Value} {options : Options} {c : Call} {s t : Session} {b : Bound}
  {e : Fault}

theorem Call.Presents.id_eq {id : String} (h : c.Presents id) : c.id = .ok (.str id) := by
  have hfilled : (Value.str id).isFilled = true := by
    simpa [Value.isFilled, Scalar.isFilled] using h.2
  unfold Call.id
  dsimp only
  rw [h.1, if_pos hfilled]
  rfl

theorem Call.Presents.unique {id id' : String} (h : c.Presents id) (h' : c.Presents id') :
    id = id' := by
  have := h.1.symm.trans h'.1
  simpa using this

theorem Call.IsJson.presents {id : Scalar} (hc : c.IsJson) (h : c.id = .ok id) :
    ∃ text, id = .str text ∧ c.Presents text := by
  unfold Call.id at h
  dsimp only at h
  split_ifs at h with hfilled
  rcases hc.id with hnull | ⟨text, htext⟩
  · rw [hnull] at hfilled
    cases hfilled
  · rw [htext] at h hfilled
    cases h
    refine ⟨text, rfl, htext, ?_⟩
    rintro rfl
    cases hfilled

theorem Call.IsJson.missing (hc : c.IsJson) (h : c.id = .error e) :
    e = .because (.missingOperationId c.verb c.route.text) ∧ ∀ id, ¬ c.Presents id := by
  have hnone : ∀ id, ¬ c.Presents id := by
    intro id hid
    rw [hid.id_eq] at h
    cases h
  refine ⟨?_, hnone⟩
  unfold Call.id at h
  dsimp only at h
  split_ifs at h with hfilled
  · rcases hc.id with hnull | ⟨text, htext⟩
    · rw [hnull] at hfilled
      cases hfilled
    · rw [htext] at h
      cases h
  · cases h
    rfl

theorem any_isKey_str {ids : List Scalar} {text : String} :
    ids.any (Scalar.str text).isKey = true ↔ Scalar.str text ∈ ids := by
  simp [List.any_eq_true, Scalar.str_isKey]

theorem claimId_fails (h : Fails (claimId c) s e t) :
    s = t ∧ (c.id = .error e ∨ ∃ id, c.id = .ok id ∧ s.operationIds.any id.isKey = true ∧
      e = .located (.duplicateOperationId id.text) (Text.upper c.verb ++ " " ++ c.route.text)) := by
  rw [claimId] at h
  rcases fails_bind.mp h with h | ⟨id, u, hid, h⟩
  · obtain ⟨he, rfl⟩ := fails_lift.mp h
    exact ⟨rfl, .inl he⟩
  · obtain ⟨hid', rfl⟩ := returns_lift.mp hid
    rcases fails_bind.mp h with h | ⟨v, u, hget, h⟩
    · exact absurd h not_fails_get
    · obtain ⟨rfl, rfl⟩ := returns_get.mp hget
      dsimp only at h
      split_ifs at h with hseen
      · obtain ⟨rfl, rfl⟩ := fails_throw.mp h
        exact ⟨rfl, .inr ⟨id, hid', hseen, rfl⟩⟩
      · rcases fails_bind.mp h with h | ⟨_, u, -, h⟩
        · exact absurd h not_fails_modify
        · exact absurd h not_fails_pure

theorem not_fails_registrations {names : List String} {origin : String} :
    ¬ Fails (names.forM fun name => Declaring.register name origin) s e t := by
  induction names generalizing s with
  | nil => exact not_fails_pure
  | cons name names ih =>
    intro h
    rcases fails_bind.mp h with h | ⟨_, u, -, h⟩
    · exact not_fails_modify h
    · exact ih h

theorem registrations_grow {names : List String} {origin : String} {a : Unit}
    (h : Returns (names.forM fun name => Declaring.register name origin) s a t) :
    t.operationIds = s.operationIds ∧ s.registry.Grows names t.registry := by
  induction names generalizing s with
  | nil =>
    obtain ⟨-, rfl⟩ := returns_pure.mp h
    exact ⟨rfl, .refl _ _⟩
  | cons name names ih =>
    obtain ⟨_, u, hname, hrest⟩ := returns_bind.mp h
    cases returns_modify.mp hname
    obtain ⟨hids, hgrows⟩ := ih hrest
    exact ⟨hids, (Registry.Grows.register s.registry name origin).trans hgrows⟩

theorem bindingsOf_ok {m : Metadata} (h : options.customGenerator = none) :
    bindingsOf m options =
      .ok (if options.bindings then (Hook.ofMode options.encodingMode).block m else .empty) := by
  unfold bindingsOf
  dsimp only
  rw [h]
  rfl

theorem textKeyed_of_keys {es : Entries} (h : ∀ e ∈ es, ∃ key, e.1 = .str key) :
    textKeyed (.ofEntries es) = .ok es := by
  unfold textKeyed Value.ofEntries
  dsimp only
  split_ifs with hall
  · rfl
  · refine absurd (List.all_eq_true.mpr fun e he => ?_) hall
    obtain ⟨key, hkey⟩ := h e he
    rw [hkey]

/-- A call fails before its id is accepted, or while its types are looked for. Once the first
name is registered nothing can fail any more. -/
theorem bind_fails (hgenerator : options.customGenerator = none) (hc : c.IsJson)
    (h : Fails (bind components options c) s e t) :
    Fails (claimId c) s e t ∨ ∃ id log, c.id = .ok id ∧ s.operationIds.any id.isKey = false ∧
      e.IsOfTyping ∧ t = { s with operationIds := s.operationIds ++ [id], log := log } := by
  rw [bind] at h
  rcases fails_bind.mp h with h | ⟨id, u, hclaim, h⟩
  · exact .inl h
  right
  obtain ⟨hid, hfresh, rfl⟩ := claimId_returns hclaim
  rcases fails_bind.mp h with h | ⟨plan, v, -, h⟩
  · obtain ⟨log, hplan, rfl⟩ := fails_telling.mp h
    exact ⟨id, log, hid, hfresh, failsIn_plan Fault.typing_isOfTyping Value.lasting_trivial
      (Value.throughout_trivial _) (Value.throughout_trivial _) (Entries.throughout_trivial _)
      (fun _ _ => trivial) options id _ _ _ hplan, rfl⟩
  -- from here on the registry has changed, so that every further step has to succeed
  rcases fails_bind.mp h with h | ⟨_, w, -, h⟩
  · exact absurd h not_fails_registrations
  rw [textKeyed_of_keys hc.keys] at h
  rcases fails_bind.mp h with h | ⟨operation, w', -, h⟩
  · cases (fails_lift.mp h).1
  dsimp only at h
  rw [bindingsOf_ok hgenerator] at h
  rcases fails_bind.mp h with h | ⟨hooks, w'', -, h⟩
  · cases (fails_lift.mp h).1
  rcases fails_bind.mp h with h | ⟨_, x, -, h⟩
  · exact absurd h not_fails_modify
  · exact absurd h not_fails_pure

theorem bind_grows (h : Returns (bind components options c) s b t) :
    (∃ id, c.id = .ok id ∧ s.operationIds.any id.isKey = false ∧
      t.operationIds = s.operationIds ++ [id]) ∧
      s.registry.Grows b.declared.names t.registry := by
  obtain ⟨id, p, log, u, hbound⟩ := bind_steps h
  obtain ⟨event, rfl, -⟩ := hbound.told
  obtain ⟨hids, hgrows⟩ := registrations_grow hbound.named
  refine ⟨⟨id, hbound.called, hbound.fresh, hids⟩, ?_⟩
  rw [hbound.declared, Plan.names_block]
  exact hgrows

/-- The session after calls in turn, of which some may have failed. -/
def afterCalls (components : Value) (options : Options) (calls : List Call) (s : Session) :
    Session :=
  calls.foldl (fun s c => ((bind components options c).run.run s).2) s

theorem mem_operationIds_iff (hgenerator : options.customGenerator = none) (hc : c.IsJson)
    {id : Scalar} :
    id ∈ ((bind components options c).run.run s).2.operationIds ↔
      id ∈ s.operationIds ∨ ∃ text, c.Presents text ∧ id = .str text := by
  have hseen {id' : Scalar} (hid : c.id = .ok id') (hany : s.operationIds.any id'.isKey = true) :
      id ∈ s.operationIds ↔ id ∈ s.operationIds ∨ ∃ text, c.Presents text ∧ id = .str text := by
    obtain ⟨text, rfl, htext⟩ := hc.presents hid
    refine ⟨.inl, ?_⟩
    rintro (h | ⟨text', htext', rfl⟩)
    · exact h
    · rw [htext'.unique htext]
      exact any_isKey_str.mp hany
  have hadded {id' : Scalar} (hid : c.id = .ok id') :
      id ∈ s.operationIds ++ [id'] ↔
        id ∈ s.operationIds ∨ ∃ text, c.Presents text ∧ id = .str text := by
    obtain ⟨text, rfl, htext⟩ := hc.presents hid
    rw [List.mem_append, List.mem_singleton]
    refine or_congr_right ⟨fun h => ⟨text, htext, h⟩, ?_⟩
    rintro ⟨text', htext', rfl⟩
    rw [htext'.unique htext]
  generalize hrun : (bind components options c).run.run s = run
  obtain ⟨e | b, t⟩ := run
  -- a call that fails behind the first step has left its id
  · rcases bind_fails hgenerator hc hrun with h | ⟨id', log, hid, -, -, rfl⟩
    · obtain ⟨rfl, hid | ⟨id', hid, hany, -⟩⟩ := claimId_fails h
      · have hnone := (hc.missing hid).2
        simp [hnone]
      · exact hseen hid hany
    · exact hadded hid
  · obtain ⟨⟨id', hid, -, hids⟩, -⟩ := bind_grows hrun
    rw [hids]
    exact hadded hid

theorem mem_operationIds_afterCalls (hgenerator : options.customGenerator = none)
    {calls : List Call} (hcalls : ∀ c ∈ calls, c.IsJson) {id : Scalar} :
    id ∈ (afterCalls components options calls s).operationIds ↔
      id ∈ s.operationIds ∨ ∃ c ∈ calls, ∃ text, c.Presents text ∧ id = .str text := by
  induction calls generalizing s with
  | nil => simp [afterCalls]
  | cons c calls ih =>
    have hrest : ∀ d ∈ calls, d.IsJson := fun d hd => hcalls d (List.mem_cons_of_mem c hd)
    have hstep : afterCalls components options (c :: calls) s =
        afterCalls components options calls ((bind components options c).run.run s).2 := rfl
    rw [hstep, ih hrest, mem_operationIds_iff hgenerator (hcalls c List.mem_cons_self)]
    simp only [List.mem_cons, exists_eq_or_imp, or_assoc]

/-- How the outcome of a call, and the session it leaves, follow from the calls before it. -/
structure Follows (earlier : List Call) (c : Call) (s : Session) (outcome : Except Fault Bound)
    (t : Session) : Prop where
  remembered : ∀ id, id ∈ t.operationIds ↔
    ∃ d ∈ earlier ++ [c], ∃ text, d.Presents text ∧ id = .str text
  refused : ∀ id, (∃ place, outcome = .error (.failure (.duplicateOperationId id) place)) ↔
    c.Presents id ∧ ∃ d ∈ earlier, d.Presents id
  failed : ∀ e, outcome = .error e → t.registry = s.registry
  succeeded : ∀ b, outcome = .ok b → s.registry.Grows b.declared.names t.registry
  origins : ∀ name origin, s.registry.origin? name = some origin →
    t.registry.origin? name = some origin

theorem refused_iff (hgenerator : options.customGenerator = none) (hc : c.IsJson) {id : String} :
    (∃ place, ((bind components options c).run.run s).1 =
      .error (.failure (.duplicateOperationId id) place)) ↔
      c.Presents id ∧ Scalar.str id ∈ s.operationIds := by
  generalize hrun : (bind components options c).run.run s = run
  obtain ⟨outcome, t⟩ := run
  constructor
  · rintro ⟨place, rfl⟩
    rcases bind_fails hgenerator hc hrun with h | ⟨id', log, -, -, htyping, -⟩
    · obtain ⟨-, hid | ⟨id', hid, hany, he⟩⟩ := claimId_fails h
      · cases (hc.missing hid).1
      · obtain ⟨text, rfl, htext⟩ := hc.presents hid
        cases he
        exact ⟨htext, any_isKey_str.mp hany⟩
    · cases htyping
  · rintro ⟨hid, hmem⟩
    have hseen := any_isKey_str.mpr hmem
    cases outcome with
    | ok b =>
      obtain ⟨⟨id', hid', hfresh, -⟩, -⟩ := bind_grows hrun
      cases hid.id_eq.symm.trans hid'
      rw [hseen] at hfresh
      cases hfresh
    | error e =>
      rcases bind_fails hgenerator hc hrun with h | ⟨id', log, hid', hfresh, -⟩
      · obtain ⟨-, hid' | ⟨id', hid', -, rfl⟩⟩ := claimId_fails h
        · cases hid.id_eq.symm.trans hid'
        · cases hid.id_eq.symm.trans hid'
          exact ⟨_, rfl⟩
      · cases hid.id_eq.symm.trans hid'
        rw [hseen] at hfresh
        cases hfresh

theorem registry_of_fails (hgenerator : options.customGenerator = none) (hc : c.IsJson)
    (h : Fails (bind components options c) s e t) : t.registry = s.registry := by
  rcases bind_fails hgenerator hc h with h | ⟨id, log, -, -, -, rfl⟩
  · rw [(claimId_fails h).1]
  · rfl

/-- Calls in turn, on one session: whatever has come of them, the next call is refused if its id
was presented before, leaves the registry alone if it fails, and adds its own names if not. -/
theorem bind_follows (hgenerator : options.customGenerator = none)
    (hs : s.operationIds = []) {earlier : List Call} (hearlier : ∀ d ∈ earlier, d.IsJson)
    (hc : c.IsJson) :
    Follows earlier c (afterCalls components options earlier s)
      ((bind components options c).run.run (afterCalls components options earlier s)).1
      ((bind components options c).run.run (afterCalls components options earlier s)).2 := by
  have hids (id : Scalar) : id ∈ (afterCalls components options earlier s).operationIds ↔
      ∃ d ∈ earlier, ∃ text, d.Presents text ∧ id = .str text := by
    rw [mem_operationIds_afterCalls hgenerator hearlier, hs]
    simp
  have hkept (e : Fault) (he : ((bind components options c).run.run
      (afterCalls components options earlier s)).1 = .error e) :=
    registry_of_fails hgenerator hc (Prod.ext he rfl)
  have hgrown (b : Bound) (hb : ((bind components options c).run.run
      (afterCalls components options earlier s)).1 = .ok b) :=
    (bind_grows (Prod.ext hb rfl)).2
  refine ⟨fun id => ?_, fun id => ?_, hkept, hgrown, fun name origin ho => ?_⟩
  · rw [mem_operationIds_iff hgenerator hc, hids]
    simp [or_and_right, exists_or]
  · rw [refused_iff hgenerator hc, hids]
    refine and_congr_right fun _ => ⟨?_, fun ⟨d, hd, hid⟩ => ⟨d, hd, id, hid, rfl⟩⟩
    rintro ⟨d, hd, text, hid, he⟩
    cases he
    exact ⟨d, hd, hid⟩
  · cases hb : ((bind components options c).run.run
      (afterCalls components options earlier s)).1 with
    | error e => rwa [hkept e hb]
    | ok b => exact (hgrown b hb).origin?_eq ho

def addition (id : String) (body : Value) : Call where
  operation := [(.str "operationId", .str id), (.str "requestBody", body)]
  verb := "post"
  route := .str "/pets"
  routeParameters := .null

theorem isJson_addition (id : String) (body : Value) : (addition id body).IsJson := by
  refine ⟨fun e he => ?_, .inr ⟨id, rfl⟩⟩
  simp only [addition, List.mem_cons, List.not_mem_nil, or_false] at he
  rcases he with rfl | rfl
  · exact ⟨_, rfl⟩
  · exact ⟨_, rfl⟩

/-- The id of a call whose body has no type is not free any more. -/
theorem bind_follows_addition :
    let earlier := [addition "addPet" .null,
      addition "addCat" (.ofEntries [(.str "$ref", .str "elsewhere")])]
    let s := afterCalls .null .default earlier .start
    (Options.default.customGenerator = none ∧ Session.start.operationIds = [] ∧
      (∀ d ∈ earlier, d.IsJson) ∧ (addition "addCat" .null).IsJson) ∧
    Follows earlier (addition "addCat" .null) s
      ((bind .null .default (addition "addCat" .null)).run.run s).1
      ((bind .null .default (addition "addCat" .null)).run.run s).2 := by
  intro earlier s
  have hearlier : ∀ d ∈ earlier, d.IsJson := by
    intro d hd
    simp only [earlier, List.mem_cons, List.not_mem_nil, or_false] at hd
    rcases hd with rfl | rfl
    · exact isJson_addition _ _
    · exact isJson_addition _ _
  exact ⟨⟨rfl, rfl, hearlier, isJson_addition _ _⟩,
    bind_follows rfl rfl hearlier (isJson_addition _ _)⟩

end Operation

end ApiBindings
