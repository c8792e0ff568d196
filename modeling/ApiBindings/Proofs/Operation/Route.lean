import ApiBindings.Proofs.Naming.Template
import ApiBindings.Proofs.Operation.Bind

/-!
The route of an operation. Main statements: the path parameters are the placeholders of the route in
order, without those of the name that a deletion has taken, and no placeholder is lost or made up by
interpolating the route and cutting it.
-/

namespace ApiBindings.Operation

open Naming (Segment)

theorem Route.of_cases (route verb : String) (options : Options) :
    Route.of route verb options = ⟨Naming.interpolated route, none⟩ ∨
      ∃ before name, options.bindings = true ∧ verb = "delete" ∧
        Naming.cutLast? (Naming.interpolated route) = some (before, name) ∧
        Route.of route verb options = ⟨before, some name⟩ := by
  unfold Route.of
  dsimp only
  split
  · rename_i before name hcut
    split_ifs at hcut with hdelete
    rw [Bool.and_eq_true, beq_iff_eq] at hdelete
    exact .inr ⟨before, name, hdelete.1, hdelete.2, hcut, rfl⟩
  · exact .inl rfl

theorem Route.idParam_of (route verb : String) (options : Options) :
    (Route.of route verb options).idParam =
      if options.bindings && verb == "delete" then
        (Naming.cutLast? (Naming.interpolated route)).map Prod.snd
      else none := by
  unfold Route.of
  dsimp only
  split_ifs with hdelete
  · cases Naming.cutLast? (Naming.interpolated route) <;> rfl
  · rfl

theorem Route.parameters_of (route verb : String) (options : Options) :
    (Route.of route verb options).parameters verb =
      (Naming.placeholders route).filter fun name =>
        (Route.of route verb options).idParam ≠ some name := by
  rw [← Naming.placeholders_interpolated route]
  rcases Route.of_cases route verb options with hroute | ⟨before, name, -, rfl, hcut, hroute⟩
  · simp [hroute, Route.parameters]
  · rw [hroute, Route.parameters, Naming.placeholders_cut hcut, List.filter_append]
    simp [Bool.beq_eq_decide_eq]

theorem Route.of_cut {route before name : String} {options : Options}
    (hbindings : options.bindings = true)
    (hcut : Naming.cutLast? (Naming.interpolated route) = some (before, name)) :
    Route.of route "delete" options = ⟨before, some name⟩ := by
  simp [Route.of, hbindings, hcut]

theorem Route.parameters_cut (before name : String) :
    (⟨before, some name⟩ : Route).parameters "delete" =
      (Naming.placeholders before).filter (· ≠ name) := by
  simp [Route.parameters, eq_comm, Bool.beq_eq_decide_eq]

theorem Route.idParam_mem {route verb name : String} {options : Options}
    (h : (Route.of route verb options).idParam = some name) : name ∈ Naming.placeholders route := by
  rcases Route.of_cases route verb options with hroute | ⟨before, cut, -, -, hcut, hroute⟩
  · rw [hroute] at h
    cases h
  · rw [hroute] at h
    cases h
    rw [← Naming.placeholders_interpolated route, Naming.placeholders_cut hcut]
    exact List.mem_append_right _ (List.mem_singleton_self name)

theorem bind_route {components : Value} {options : Options} {c : Call} {s t : Session} {b : Bound}
    {route : String} (hroute : c.route = .str route)
    (h : Returns (bind components options c) s b t) :
    b.metadata.verb = c.verb ∧ b.metadata.route = (Route.of route c.verb options).template ∧
      b.metadata.idParam = (Route.of route c.verb options).idParam ∧
      b.metadata.paramsInPath =
        (Naming.placeholders route).filter fun name => b.metadata.idParam ≠ some name := by
  obtain ⟨id, p, log, u, hbound⟩ := bind_steps h
  obtain ⟨text, parameters, v, hmade⟩ := plan_returns hbound.planned
  cases hmade.routeText.symm.trans hroute
  have hidParam : b.metadata.idParam = (Route.of route c.verb options).idParam := by
    rw [hbound.metadata, ← hmade.route]
    rfl
  refine ⟨?_, ?_, hidParam, ?_⟩
  · rw [hbound.metadata]
    exact hmade.verb
  · rw [hbound.metadata, ← hmade.route]
    rfl
  · rw [hidParam, ← Route.parameters_of, ← hmade.route, hbound.metadata]
    exact hmade.pathParameters

/-- Interpolation keeps the placeholders of a route, and cutting the closing one off takes it away
and no other. A deletion then has the placeholders of other names as its path parameters. -/
theorem placeholders_kept (route : String) :
    Naming.placeholders (Naming.interpolated route) = Naming.placeholders route ∧
    ∀ before name, (Naming.cutLast? (Naming.interpolated route) = some (before, name) ↔
        Naming.IsClosedBy (Naming.interpolated route) before name) ∧
      (Naming.cutLast? (Naming.interpolated route) = some (before, name) →
        Naming.placeholders route = Naming.placeholders before ++ [name] ∧
        ∀ options : Options, options.bindings = true →
          (Route.of route "delete" options).parameters "delete" =
            (Naming.placeholders before).filter (· ≠ name) ∧
          ∀ components c s b t, c.route = .str route → c.verb = "delete" →
            Returns (bind components options c) s b t →
            b.metadata.route = before ∧ b.metadata.idParam = some name ∧
              b.metadata.paramsInPath = (Naming.placeholders before).filter (· ≠ name)) := by
  refine ⟨Naming.placeholders_interpolated route, fun before name =>
    ⟨Naming.cutLast?_eq_some_iff, fun hcut => ?_⟩⟩
  have hparts : Naming.placeholders route = Naming.placeholders before ++ [name] := by
    rw [← Naming.placeholders_interpolated route, Naming.placeholders_cut hcut]
  refine ⟨hparts, fun options hbindings => ?_⟩
  have hroute := Route.of_cut hbindings hcut
  refine ⟨by rw [hroute, Route.parameters_cut], fun components c s b t htext hverb h => ?_⟩
  obtain ⟨-, htemplate, hid, hpath⟩ := bind_route htext h
  rw [hverb, hroute] at htemplate hid
  refine ⟨htemplate, hid, ?_⟩
  rw [hpath, hid, hparts, List.filter_append]
  simp [eq_comm]

/-- The route `/pets/{id}/{{toy}/{id}/`, in which a brace is never closed, with a line break behind
it. -/
def strayRoute : String := "/pets/\x7bid\x7d/\x7b\x7btoy\x7d/\x7bid\x7d/\n"

def strayRemoval : Call where
  operation := [(.str "operationId", .str "removeToy")]
  verb := "delete"
  route := .str strayRoute
  routeParameters := .null

theorem strayRemoval_returns : ∃ b t, Returns (bind .null .default strayRemoval) .start b t :=
  exists_of_isSome (by decide +kernel)

theorem placeholders_kept_strayRoute :
    Naming.placeholders strayRoute = ["id", "toy", "id"] ∧
    Naming.cutLast? (Naming.interpolated strayRoute) =
      some ("/pets/$\x7bid\x7d/$\x7b$\x7btoy\x7d", "id") ∧
    ∃ b t, Returns (bind .null .default strayRemoval) .start b t ∧
      b.metadata.route = "/pets/$\x7bid\x7d/$\x7b$\x7btoy\x7d" ∧
      b.metadata.idParam = some "id" ∧ b.metadata.paramsInPath = ["toy"] := by
  have hcut : Naming.cutLast? (Naming.interpolated strayRoute) =
      some ("/pets/$\x7bid\x7d/$\x7b$\x7btoy\x7d", "id") := by decide
  obtain ⟨b, t, h⟩ := strayRemoval_returns
  obtain ⟨-, hcuts⟩ := placeholders_kept strayRoute
  obtain ⟨-, hdeletions⟩ := (hcuts _ _).2 hcut
  obtain ⟨-, hbound⟩ := hdeletions .default rfl
  obtain ⟨hroute, hid, hpath⟩ := hbound _ _ _ _ _ rfl rfl h
  exact ⟨by decide, hcut, b, t, h, hroute, hid, hpath.trans (by decide)⟩

theorem Route.of_segments {segments : List Segment} (h : ∀ x ∈ segments, x.IsDelimited)
    (verb : String) (options : Options) {r : Route}
    (hr : r = Route.of (String.ofList (Naming.routeChars segments)) verb options) :
    (r.idParam = none ∧ r.template = String.ofList (Naming.templateChars segments)) ∨
      ∃ front name, ∃ ending ∈ Naming.endings, verb = "delete" ∧
        segments = front ++ Segment.char '/' :: .placeholder name :: ending.map .char ∧
        r.template = String.ofList (Naming.templateChars front) ∧
        r.idParam = some (String.ofList name) := by
  rcases Route.of_cases (String.ofList (Naming.routeChars segments)) verb options with
    hroute | ⟨before, cut, -, hdelete, hcut, hroute⟩
  · rw [Naming.interpolated_route h] at hroute
    exact .inl ⟨by rw [hr, hroute], by rw [hr, hroute]⟩
  · rw [Naming.interpolated_route h] at hcut
    obtain ⟨front, name, ending, hending, he, rfl, rfl⟩ := Naming.cutLast?_template h hcut
    exact .inr ⟨front, name, ending, hending, hdelete, he, by rw [hr, hroute], by rw [hr, hroute]⟩

theorem Route.template_of_segments {segments : List Segment} (h : ∀ x ∈ segments, x.IsDelimited)
    (verb : String) (options : Options) :
    ∃ kept, kept <+: segments ∧
      (Route.of (String.ofList (Naming.routeChars segments)) verb options).template =
        String.ofList (Naming.templateChars kept) := by
  rcases Route.of_segments h verb options rfl with
    ⟨-, hwhole⟩ | ⟨front, name, ending, -, -, hparts, hfront, -⟩
  · exact ⟨segments, List.prefix_rfl, hwhole⟩
  · exact ⟨front, ⟨_, hparts.symm⟩, hfront⟩

end ApiBindings.Operation
