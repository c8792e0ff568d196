import ApiBindings.Proofs.Client.Calls
import ApiBindings.Proofs.Declaration.Declared
import ApiBindings.Proofs.Operation.References
import ApiBindings.Proofs.Schema.Narrowing

/-!
The names of types in a generated file. Main statement: if the references of a document lead to
members of its collections, then every name that a run writes is declared in the file.
-/

namespace ApiBindings

theorem Value.entriesOrNone_ofEntries (es : Entries) :
    (Value.ofEntries es).entriesOrNone = .ok es := by
  cases es <;> rfl

namespace Operation

theorem lookUpParameter_congr {components components' : Entries}
    (h : components.get "parameters" = components'.get "parameters") (item : Value) :
    lookUpParameter (.ofEntries components) item =
      lookUpParameter (.ofEntries components') item := by
  unfold lookUpParameter
  rw [Value.entriesOrNone_ofEntries, Value.entriesOrNone_ofEntries]
  split
  · split
    · rfl
    · refine bind_congr fun ref => ?_
      split
      · rfl
      · have hlift (es : Entries) : (liftM (.ok es : Except Fault Entries) : Telling Entries) =
            pure es :=
          rfl
        rw [hlift, hlift, pure_bind, pure_bind, h]
  · rfl

variable {components components' : Entries} {options : Options} {c : Call} {ref : String}

theorem Call.HasParameters.congr {parameters : List Parameter}
    (hp : components.get "parameters" = components'.get "parameters")
    (h : c.HasParameters (.ofEntries components) parameters) :
    c.HasParameters (.ofEntries components') parameters := by
  unfold Call.HasParameters mergeParameters at *
  rwa [funext (lookUpParameter_congr hp)] at h

theorem Call.Refers.congr (hp : components.get "parameters" = components'.get "parameters")
    (h : c.Refers (.ofEntries components) options ref) :
    c.Refers (.ofEntries components') options ref := by
  cases h with
  | answer he hcode hr => exact .answer he hcode hr
  | body hr => exact .body hr
  | query hps hmem hquery hs hr => exact .query (hps.congr hp) hmem hquery hs hr
  | content hps hmem hquery hnone href hmedia hr =>
    exact .content (hps.congr hp) hmem hquery hnone href hmedia hr
  | path hps hroute hname hfound hs hr => exact .path (hps.congr hp) hroute hname hfound hs hr
  | id hps hroute hname hfound hr => exact .id (hps.congr hp) hroute hname hfound hr

theorem Call.RefersByParameter.congr
    (hp : components.get "parameters" = components'.get "parameters")
    (h : c.RefersByParameter (.ofEntries components) ref) :
    c.RefersByParameter (.ofEntries components') ref := by
  obtain ⟨parameters, hps, hread⟩ := h
  exact ⟨parameters, hps.congr hp, hread⟩

end Operation

namespace Client

open Operation (Call Options Plan)
open Declaration (Block ComponentType PointsToMember requestBodies responses)

def componentsOf (document : Value) : Entries :=
  (document.members.get "components").toEntries.toOption.getD []

variable {document : Value} {options : Options} {shared : Entries}

theorem toEntries_of_not_isFilled {v : Value} (h : ¬ v.isFilled = true) :
    v.toEntries.toOption.getD [] = [] := by
  cases v with
  | scalar s =>
    cases s with
    | str text =>
      have hempty : text = "" := by simpa [Value.isFilled, Scalar.isFilled] using h
      rw [hempty]
      rfl
    | bytes bs =>
      cases bs with
      | nil => rfl
      | cons b bs => exact absurd rfl h
    | _ => rfl
  | list items =>
    cases items with
    | nil => rfl
    | cons item items => exact absurd rfl h
  | map label es =>
    cases es with
    | nil => rfl
    | cons e es => exact absurd rfl h
  | set ms =>
    cases ms with
    | nil => rfl
    | cons m ms => exact absurd rfl h
  | pair a b => exact absurd rfl h

/-- The components that a run works with: its schemas are narrowed, and nothing else is changed. -/
structure NarrowedFrom (components shared : Entries) : Prop where
  others : ∀ key, key ≠ "schemas" → shared.get key = components.get key
  schemas : Schema.Narrowed (components.get "schemas").members (shared.get "schemas").members

theorem narrowedComponents_narrows {s t : Session} (hdocument : document.isUnlabelled = true)
    (h : Returns (narrowedComponents document.members) s shared t) :
    NarrowedFrom (componentsOf document) shared := by
  rw [narrowedComponents] at h
  obtain ⟨components, hcomponents, h⟩ := returns_lift_bind.mp h
  have hdeclared : (document.members.get "components").isUnlabelled = true :=
    Entries.Unlabelled.get (Value.isUnlabelled_members hdocument) "components"
  have hof : componentsOf document = components ∧ Entries.Unlabelled components := by
    unfold componentsOf
    split_ifs at hcomponents with hfilled
    · rw [hcomponents]
      exact ⟨rfl, .toEntries hdeclared hcomponents⟩
    · cases hcomponents
      exact ⟨toEntries_of_not_isFilled hfilled, fun _ he => nomatch he⟩
  rw [hof.1]
  dsimp only at h
  split_ifs at h
  · obtain ⟨narrowed, u, htold, h⟩ := returns_bind.mp h
    obtain ⟨log, hfollowed, -⟩ := returns_telling.mp htold
    obtain ⟨rfl, -⟩ := returns_pure.mp h
    refine ⟨fun key hkey => Entries.get_put_of_ne hkey components _, ?_⟩
    rw [Entries.get_put_self]
    exact (Schema.followDiscriminators_narrows (hof.2.get "schemas") hfollowed).1
  · obtain ⟨rfl, -⟩ := returns_pure.mp h
    exact ⟨fun _ _ => rfl, .refl _⟩

/-- A reference that is met in a schema, in a response or in a request body of a document. -/
inductive Meets (document : Value) (options : Options) : String → Prop
  | schema {e : Scalar × Value} {ref : String} :
    e ∈ ((componentsOf document).get "schemas").members → Schema.Refers e.2 ref →
    Meets document options ref
  | body {part : Declaration.BodySection} {e : Scalar × Value} {ref : String} :
    part = requestBodies ∨ part = responses → e ∈ ((componentsOf document).get part.key).members →
    Schema.BodyRefers e.2 ref → Meets document options ref
  | operation {c : Call} {ref : String} : c ∈ calls document →
    c.Refers (.ofEntries (componentsOf document)) options ref → Meets document options ref

inductive Renders (document : Value) (options : Options) (shared : Entries) : TypeExpr → Prop
  | component {t : TypeExpr} : ComponentType shared t → Renders document options shared t
  | operation {c : Call} {p : Plan} {t : TypeExpr} : c ∈ calls document →
    c.HasPlan (.ofEntries shared) options p → t ∈ p.expressions → Renders document options shared t

theorem PointsToMember.narrowed {components : Entries} {ref : String}
    (h : PointsToMember components ref) (hnarrowed : NarrowedFrom components shared) :
    PointsToMember shared ref := by
  obtain ⟨part, hpart, key, v, hkey, rfl⟩ := h
  by_cases hschemas : part.key = "schemas"
  · rw [hschemas] at hkey
    obtain ⟨⟨key', w⟩, hw, he, -⟩ := exists_right_of_forall₂ hnarrowed.schemas hkey
    cases he
    exact ⟨part, hpart, key, w, hschemas ▸ hw, rfl⟩
  · rw [← hnarrowed.others _ hschemas] at hkey
    exact ⟨part, hpart, key, v, hkey, rfl⟩

theorem Renders.named {t : TypeExpr} {name : String} (h : Renders document options shared t)
    (hnarrowed : NarrowedFrom (componentsOf document) shared) (hname : name ∈ t.names) :
    Schema.NamedBy (fun ref => Meets document options ref ∨ ∃ c ∈ calls document,
      c.RefersByParameter (.ofEntries (componentsOf document)) ref) name := by
  have hparameters := hnarrowed.others "parameters" (by decide)
  cases h with
  | component h =>
    cases h with
    | schema he ht =>
      obtain ⟨e, he, -, hnarrows⟩ := exists_left_of_forall₂ hnarrowed.schemas he
      exact (Schema.typeOf_names _ _ _ ht name hname).mono fun ref hr =>
        .inl (.schema he (hnarrows ref hr))
    | body hpart he ht =>
      rw [hnarrowed.others _ (by rcases hpart with rfl | rfl <;> decide)] at he
      exact (Schema.contentType_names ht hname).mono fun ref hr => .inl (.body hpart he hr)
  | operation hc hplan ht =>
    refine (Operation.plan_names hplan ht hname).mono fun ref hr => ?_
    rcases hr with hr | hr
    · exact .inl (.operation hc (hr.congr hparameters))
    · exact .inr ⟨_, hc, hr.congr hparameters⟩

/-- Every declaration of the output is written from an expression of the run, and the file declares
each name in these expressions. -/
structure DeclaresNames (document : Value) (options : Options) (shared : Entries)
    (output : Output) : Prop where
  narrowed : ∃ s, Returns (narrowedComponents document.members) .start shared s
  components : ∀ d ∈ output.components.flatMap Block.statements,
    ∃ t, ComponentType shared t ∧ d.Writes t
  operations : ∀ b ∈ output.bound, ∃ c ∈ calls document, ∃ p,
    c.HasPlan (.ofEntries shared) options p ∧ b.metadata = p.metadata c.operation ∧
      b.declared = p.block
  declared : ∀ t, Renders document options shared t → ∀ name ∈ t.names,
    name ∈ output.components.flatMap Block.names

/-- If the references that are met lead to members of the collections, then no name in what a run
writes is left without its declaration. -/
theorem generate_declares {output : Output} {log : Log} (hdocument : document.isUnlabelled = true)
    (hrefs : ∀ ref, Meets document options ref → PointsToMember (componentsOf document) ref)
    (hparameters : ∀ c ∈ calls document, ∀ ref,
      c.RefersByParameter (.ofEntries (componentsOf document)) ref →
        PointsToMember (componentsOf document) ref)
    (h : generate document options = (.ok output, log)) :
    ∃ shared, DeclaresNames document options shared output := by
  obtain ⟨shared, s, t, u, v, -, hstages⟩ := generate_stages h
  have hnarrowed := narrowedComponents_narrows hdocument hstages.narrowed
  refine ⟨shared, ⟨s, hstages.narrowed⟩, Declaration.componentBlocks_writes hstages.declared,
    fun b hb => ?_, fun type htype name hname => ?_⟩
  · obtain ⟨c, hc, w, x, hbound⟩ := mem_of_returns_mapM hstages.bound hb
    obtain ⟨id, p, log, y, hmade⟩ := Operation.bind_steps hbound
    exact ⟨c, hc, p, ⟨id, w.log, log, hmade.called, hmade.planned⟩, hmade.metadata,
      hmade.declared⟩
  · obtain ⟨ref, href, location, hreferenced⟩ := htype.named hnarrowed hname
    have hmember : PointsToMember (componentsOf document) ref := by
      rcases href with href | ⟨c, hc, href⟩
      · exact hrefs ref href
      · exact hparameters c hc ref href
    exact (PointsToMember.narrowed hmember hnarrowed).declared hstages.declared hreferenced

section Examples

open Operation (Parameter)

def singleOperation (components : Entries) (c : Call) : Value :=
  .ofEntries [(.str "components", .ofEntries components),
    (.str "paths", .ofEntries [(c.route, .ofEntries [(.str c.verb, .ofEntries c.operation)])])]

def answeredCall : Call where
  operation := [(.str "operationId", .str "listPets"),
    (.str "responses", .ofEntries [(.str "200", .ofEntries [
      (.str "$ref", .str "#/components/responses/pets~1all")])])]
  verb := "get"
  route := .str "/pets"
  routeParameters := .null

def answeredDocument : Value :=
  singleOperation [(.str "responses", .ofEntries [
    (.str "pets/all", .ofEntries [(.str "description", .str "All pets")])])] answeredCall

theorem answeredCall_parameters {components : Value} {parameters : List Parameter}
    (h : answeredCall.HasParameters components parameters) : parameters = [] := by
  have hrun : Returns (Operation.mergeParameters components answeredCall.routeParameters
      (answeredCall.operation.get "parameters")) [] [] [] := by
    rfl
  exact h.eq_of_returns hrun

theorem pointsToMember_answeredDocument {ref : String} (h : Meets answeredDocument .default ref) :
    PointsToMember (componentsOf answeredDocument) ref := by
  cases h with
  | schema he _ => cases (show _ ∈ ([] : Entries) from he)
  | body hpart he hr =>
    rcases hpart with rfl | rfl
    · cases (show _ ∈ ([] : Entries) from he)
    · obtain rfl := List.mem_singleton.mp he
      cases hr with
      | here href => cases href
      | media _ hmedia _ =>
        obtain ⟨content, key, media, hcontent, -⟩ := hmedia
        cases hcontent
  | operation hc hr =>
    obtain rfl := List.mem_singleton.mp (show _ ∈ [answeredCall] from hc)
    cases hr with
    | answer he _ hr =>
      obtain rfl := List.mem_singleton.mp he
      cases hr with
      | here href =>
        cases href
        exact ⟨responses, by simp [Declaration.sections], "pets/all", _, List.mem_singleton_self _,
          by decide⟩
      | media href _ _ => cases href
    | body hr => cases (show Schema.BodyRefers .null ref from hr)
    | query hps hp _ _ _ => cases answeredCall_parameters hps ▸ hp
    | content hps hp _ _ _ _ _ => cases answeredCall_parameters hps ▸ hp
    | path _ hroute hname _ _ _ =>
      cases hroute
      cases (show _ ∈ ([] : List String) from hname)
    | id _ hroute hname _ _ =>
      cases hroute
      cases hname

theorem generate_declares_answered : answeredDocument.isUnlabelled = true ∧
    (∀ ref, Meets answeredDocument .default ref →
      PointsToMember (componentsOf answeredDocument) ref) ∧
    (∀ c ∈ calls answeredDocument, ∀ ref,
      c.RefersByParameter (.ofEntries (componentsOf answeredDocument)) ref →
        PointsToMember (componentsOf answeredDocument) ref) ∧
    ∃ output log shared, generate answeredDocument .default = (.ok output, log) ∧
      DeclaresNames answeredDocument .default shared output := by
  have hdocument : answeredDocument.isUnlabelled = true := rfl
  have hrefs (ref : String) (href : Meets answeredDocument .default ref) :=
    pointsToMember_answeredDocument href
  have hparameters : ∀ c ∈ calls answeredDocument, ∀ ref,
      c.RefersByParameter (.ofEntries (componentsOf answeredDocument)) ref →
        PointsToMember (componentsOf answeredDocument) ref := by
    rintro c hc ref ⟨parameters, hps, p, hp, -⟩
    obtain rfl := List.mem_singleton.mp (show _ ∈ [answeredCall] from hc)
    cases answeredCall_parameters hps ▸ hp
  obtain ⟨output, log, hrun⟩ : ∃ output log, generate answeredDocument .default =
      (.ok output, log) := exists_of_isSome (by decide +kernel)
  obtain ⟨shared, hshared⟩ := generate_declares hdocument hrefs hparameters hrun
  exact ⟨hdocument, hrefs, hparameters, output, log, shared, hrun, hshared⟩

def limitedCall : Call where
  operation := [(.str "operationId", .str "listPets"),
    (.str "parameters", .list [.ofEntries [(.str "$ref", .str "#/components/parameters/P")]])]
  verb := "get"
  route := .str "/pets"
  routeParameters := .null

/-- A shared parameter that is a reference to another, and has a content besides. -/
def chainedParameter : Parameter where
  name := .str "limit"
  position := .str "query"
  entries := [(.str "$ref", .str "#/components/parameters/Limit"), (.str "name", .str "limit"),
    (.str "in", .str "query"), (.str "content", .ofEntries [(.str "application/json",
      .ofEntries [(.str "schema", .ofEntries [(.str "type", .str "integer")])])])]

def limitedDocument : Value :=
  singleOperation [(.str "parameters", .ofEntries [(.str "P", .ofEntries chainedParameter.entries),
    (.str "Limit", .ofEntries [(.str "name", .str "limit"), (.str "in", .str "query"),
      (.str "schema", .ofEntries [(.str "type", .str "integer")])])])] limitedCall

theorem limitedCall_parameters {parameters : List Parameter}
    (h : limitedCall.HasParameters (.ofEntries (componentsOf limitedDocument)) parameters) :
    parameters = [chainedParameter] := by
  have hrun : Returns (Operation.mergeParameters (.ofEntries (componentsOf limitedDocument))
      limitedCall.routeParameters (limitedCall.operation.get "parameters")) [] [chainedParameter]
      [] := by
    rfl
  exact h.eq_of_returns hrun

theorem not_meets_limitedDocument (ref : String) : ¬ Meets limitedDocument .default ref := by
  intro h
  cases h with
  | schema he _ => cases (show _ ∈ ([] : Entries) from he)
  | body hpart he _ =>
    rcases hpart with rfl | rfl
    · cases (show _ ∈ ([] : Entries) from he)
    · cases (show _ ∈ ([] : Entries) from he)
  | operation hc hr =>
    obtain rfl := List.mem_singleton.mp (show _ ∈ [limitedCall] from hc)
    cases hr with
    | answer he _ _ => cases (show _ ∈ ([] : Entries) from he)
    | body hr => cases (show Schema.BodyRefers .null ref from hr)
    | query hps hp _ hs _ =>
      obtain rfl := limitedCall_parameters hps
      obtain rfl := List.mem_singleton.mp hp
      cases hs
    | content hps hp _ _ href _ _ =>
      obtain rfl := limitedCall_parameters hps
      obtain rfl := List.mem_singleton.mp hp
      cases href
    | path _ hroute hname _ _ _ =>
      cases hroute
      cases (show _ ∈ ([] : List String) from hname)
    | id _ hroute hname _ _ =>
      cases hroute
      cases hname

theorem generate_limitedDocument : ∃ output log,
    generate limitedDocument .default = (.ok output, log) ∧
      output.components.flatMap Block.names = [] :=
  exists_of_map_eq_some (by decide +kernel)

theorem renders_limitedDocument : ∃ t,
    Renders limitedDocument .default (componentsOf limitedDocument) t ∧
      "LimitParameter" ∈ t.names := by
  obtain ⟨p, log, hplan, hnames⟩ : ∃ p log, (limitedCall.plan
      (.ofEntries (componentsOf limitedDocument)) .default (.str "listPets")).run.run [] =
        (.ok p, log) ∧ p.expressions.flatMap TypeExpr.names = ["LimitParameter"] :=
    exists_of_map_eq_some (by decide)
  obtain ⟨t, ht, hname⟩ := List.mem_flatMap.mp (hnames ▸ List.mem_singleton_self "LimitParameter")
  have hcall : limitedCall ∈ calls limitedDocument := List.mem_singleton_self limitedCall
  exact ⟨t, .operation hcall ⟨.str "listPets", [], log, rfl, hplan⟩ ht, hname⟩

/-- Without the condition on parameters a name can be left without its declaration: a parameter that
is reached by one reference, and is another itself, has the name of the second for its type. -/
theorem not_generate_declares_limited :
    ¬ ∀ (document : Value) (options : Options) (output : Output) (log : Log),
      document.isUnlabelled = true →
      (∀ ref, Meets document options ref → PointsToMember (componentsOf document) ref) →
      generate document options = (.ok output, log) →
      ∃ shared, DeclaresNames document options shared output := by
  intro hclaim
  obtain ⟨output, log, hrun, hnone⟩ := generate_limitedDocument
  obtain ⟨shared, hdeclares⟩ := hclaim limitedDocument .default output log (by decide)
    (fun ref href => absurd href (not_meets_limitedDocument ref)) hrun
  obtain ⟨s, hshared⟩ := hdeclares.narrowed
  have hcomponents : Returns (narrowedComponents limitedDocument.members) .start
      (componentsOf limitedDocument) .start := by
    rfl
  obtain ⟨rfl, -⟩ := hshared.unique hcomponents
  obtain ⟨t, hrendered, hname⟩ := renders_limitedDocument
  have hdeclared := hdeclares.declared t hrendered _ hname
  rw [hnone] at hdeclared
  cases hdeclared

end Examples

end Client

end ApiBindings
