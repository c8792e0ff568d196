import ApiBindings.Proofs.Declaration.Alike
import ApiBindings.Proofs.Operation.Route
import ApiBindings.Proofs.Operation.Session

/-!
What the types of an operation owe to the options of generation. Main statements: an operation is
bound alike whatever the options are, unless it is a deletion that can take a placeholder from the
end of its route; and then its answers, its body and its query are the same still.
-/

namespace ApiBindings.Operation

def Call.IsCut (c : Call) : Prop :=
  c.verb = "delete" ∧ ∃ route, c.route = .str route ∧
    (Naming.cutLast? (Naming.interpolated route)).isSome = true

variable {components : Value} {options options' : Options} {c : Call}

theorem Route.of_uncut {route : String} (hc : ¬ c.IsCut) (hr : c.route = .str route)
    (options : Options) : Route.of route c.verb options = ⟨Naming.interpolated route, none⟩ := by
  rcases Route.of_cases route c.verb options with hwhole | ⟨before, name, -, hdelete, hcut, -⟩
  · exact hwhole
  · exact absurd ⟨hdelete, route, hr, by rw [hcut, Option.isSome_some]⟩ hc

theorem plan_alike (hc : ¬ c.IsCut) (id : Scalar) :
    Alike Eq (c.plan components options id) (c.plan components options' id) := by
  unfold Call.plan
  refine .after fun _ name _ _ => .after fun _ route _ hroute => ?_
  have hr : c.route = .str route :=
    Value.scalar.inj (Value.expectText_ok (returns_lift.mp hroute).1)
  dsimp only
  rw [Route.of_uncut hc hr options, Route.of_uncut hc hr options']
  exact .refl (fun _ => rfl) _

structure Bound.Agrees (b b' : Bound) : Prop where
  metadata : b.metadata = b'.metadata
  declared : b.declared = b'.declared

theorem bind_alike (hc : ¬ c.IsCut) (ho : options.customGenerator = none)
    (ho' : options'.customGenerator = none) :
    Alike Bound.Agrees (bind components options c) (bind components options' c) := by
  unfold bind
  refine .after fun _ id _ _ => ?_
  refine .bind (.telling (plan_alike hc id)) fun plan plan' hplan => ?_
  cases hplan
  refine .after fun _ _ _ _ => .after fun _ operation _ _ => ?_
  dsimp only
  rw [bindingsOf_ok ho, bindingsOf_ok ho']
  refine .bind (.pure trivial : Alike (fun _ _ => True) _ _) fun hooks hooks' _ => ?_
  exact .after fun _ _ _ _ => .pure ⟨rfl, rfl⟩

/-- Two plans of one operation that differ in the parameters of the route at most. -/
structure Plan.Shares (p p' : Plan) : Prop where
  name : p.name = p'.name
  response : p.types.response = p'.types.response
  error : p.types.error = p'.types.error
  body : p.types.body = p'.types.body
  queryMembers : p.types.queryMembers = p'.types.queryMembers

theorem Plan.Shares.metadata {p p' : Plan} (h : p.Shares p') (operation : Entries) :
    (p.metadata operation).responseType = (p'.metadata operation).responseType ∧
      (p.metadata operation).errorType = (p'.metadata operation).errorType ∧
      (p.metadata operation).queryParamsType = (p'.metadata operation).queryParamsType ∧
      (p.metadata operation).requestBodyType = (p'.metadata operation).requestBodyType := by
  obtain ⟨_, _, _, _, _, ⟨_, _, _, _, _, _⟩, _⟩ := p
  obtain ⟨_, _, _, _, _, ⟨_, _, _, _, _, _⟩, _⟩ := p'
  obtain ⟨⟨⟩, ⟨⟩, ⟨⟩, ⟨⟩, ⟨⟩⟩ := h
  exact ⟨rfl, rfl, rfl, rfl⟩

theorem plan_shares {id : Scalar} {s s' t t' : Log} {p p' : Plan}
    (h : Returns (c.plan components options id) s p t)
    (h' : Returns (c.plan components options' id) s' p' t') : p.Shares p' := by
  obtain ⟨text, parameters, u, hmade⟩ := plan_returns h
  obtain ⟨text', parameters', u', hmade'⟩ := plan_returns h'
  cases (steady_mergeParameters _ _ _).eq_of_returns hmade.merged hmade'.merged
  have hresponse : p.types.response = p'.types.response := by
    obtain ⟨responses, response, hresponses, hresponse, hr⟩ := hmade.types.response
    obtain ⟨responses', response', hresponses', hresponse', hr'⟩ := hmade'.types.response
    cases hresponses.symm.trans hresponses'
    cases hresponse.symm.trans hresponse'
    exact hr.trans hr'.symm
  have herror : p.types.error = p'.types.error := by
    obtain ⟨responses, error, hresponses, herror, he⟩ := hmade.types.error
    obtain ⟨responses', error', hresponses', herror', he'⟩ := hmade'.types.error
    cases hresponses.symm.trans hresponses'
    cases herror.symm.trans herror'
    exact he.trans he'.symm
  exact ⟨Except.ok.inj (hmade.name.symm.trans hmade'.name), hresponse, herror,
    Except.ok.inj (hmade.types.body.symm.trans hmade'.types.body),
    Except.ok.inj (hmade.types.queryMembers.symm.trans hmade'.types.queryMembers)⟩

theorem plan_eq {id : Scalar} {s s' t t' : Log} {p p' : Plan} (hc : ¬ c.IsCut)
    (h : Returns (c.plan components options id) s p t)
    (h' : Returns (c.plan components options' id) s' p' t') : p = p' := by
  rcases plan_alike hc id s with ⟨e, u, he, -⟩ | ⟨q, q', u, hq, hq', hqq⟩
  · cases h.symm.trans he
  · cases h.symm.trans hq
    cases hqq
    exact (steady_plan c components options' id).eq_of_returns hq' h'

/-- What two runs that return have bound for one call, whatever their options are. -/
structure Corresponds (c : Call) (b b' : Bound) : Prop where
  agrees : ¬ c.IsCut → b.Agrees b'
  plans : ∃ p p' : Plan, p.Shares p' ∧ b.metadata = p.metadata c.operation ∧
    b.declared = p.block ∧ b'.metadata = p'.metadata c.operation ∧ b'.declared = p'.block
  response : b.metadata.responseType = b'.metadata.responseType
  error : b.metadata.errorType = b'.metadata.errorType
  query : b.metadata.queryParamsType = b'.metadata.queryParamsType
  body : b.metadata.requestBodyType = b'.metadata.requestBodyType

theorem bind_corresponds {s s' t t' : Session} {b b' : Bound}
    (h : Returns (bind components options c) s b t)
    (h' : Returns (bind components options' c) s' b' t') : Corresponds c b b' := by
  obtain ⟨id, p, log, u, hbound⟩ := bind_steps h
  obtain ⟨id', p', log', u', hbound'⟩ := bind_steps h'
  cases hbound.called.symm.trans hbound'.called
  have hshares := plan_shares hbound.planned hbound'.planned
  obtain ⟨hresponse, herror, hquery, hbody⟩ := hshares.metadata c.operation
  rw [← hbound.metadata, ← hbound'.metadata] at hresponse herror hquery hbody
  refine ⟨fun hc => ?_, ⟨p, p', hshares, hbound.metadata, hbound.declared, hbound'.metadata,
    hbound'.declared⟩, hresponse, herror, hquery, hbody⟩
  cases plan_eq hc hbound.planned hbound'.planned
  exact ⟨hbound.metadata.trans hbound'.metadata.symm, hbound.declared.trans hbound'.declared.symm⟩

end ApiBindings.Operation
