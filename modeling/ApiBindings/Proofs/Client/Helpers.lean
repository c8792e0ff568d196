import Mathlib
import ApiBindings.Proofs.Client.Enumeration
import ApiBindings.Proofs.Client.Throughout
import ApiBindings.Proofs.Operation.Shown

/-!
The helpers in the head of a generated file. Main statement: the head holds every helper that the
code below it uses, and unless a text of the document imitates a use, it holds no other.
-/

namespace ApiBindings.Client

open Text (markers Occurs Quiet)
open Operation (Call Options Plan Bound)
open Declaration (ComponentType)

/-- An expression that stands in the code of a run, with the components that it works with. -/
inductive Shows (document : Value) (options : Options) (shared : Entries) : TypeExpr → Prop
  | component {t : TypeExpr} : ComponentType shared t → Shows document options shared t
  | operation {c : Call} {p : Plan} {t : TypeExpr} : c ∈ calls document →
    c.HasPlan (.ofEntries shared) options p → t ∈ p.shown options.bindings →
    Shows document options shared t

inductive Helper where
  | require
  | libraries
  | invalidate
  | encoding
deriving DecidableEq

def queryImport : String :=
  "import \x7b useQuery, useMutation, useQueryClient, UseQueryOptions, UseMutationOptions \x7d from \"react-query\";\n"

def clientImport : String := "import axios from \"axios\";\n"

namespace Helper

def all : List Helper := [require, libraries, invalidate, encoding]

def parts (mode : String) : Helper → List String
  | require => [requireHelper]
  | libraries => [queryImport, clientImport]
  | invalidate => [invalidateHelper]
  | encoding => [encodingFunction mode, encodingTag]

def isNeeded (n : Needs) : Helper → Bool
  | require => n.requireHelper
  | libraries => n.libraries
  | invalidate => n.invalidate
  | encoding => n.encoding

/-- The code of the run uses the helper: it makes fields of a type mandatory, it has a hook, it has
a hook that reads, or it has a hook that encodes its address. -/
def Used (document : Value) (options : Options) (shared : Entries) (output : Output) :
    Helper → Prop
  | require => ∃ t, Shows document options shared t ∧ t.Requires
  | libraries => options.bindings = true ∧ output.bound ≠ []
  | invalidate => options.bindings = true ∧ ∃ b ∈ output.bound, b.metadata.verb = "get"
  | encoding => options.bindings = true ∧ output.bound ≠ [] ∧ options.encodingMode.getD "" ≠ ""

end Helper

section Header

def Helper.text (mode : String) : Helper → String
  | .require => requireHelper
  | .libraries => libraryImports
  | .invalidate => invalidateHelper
  | .encoding => "\n" ++ encodingFunction mode ++ encodingTag

theorem header_eq (n : Needs) (mode : String) : header n "" mode = banner
    ++ (if n.libraries then Helper.libraries.text mode else "")
    ++ (if n.invalidate then Helper.invalidate.text mode else "")
    ++ (if n.requireHelper then Helper.require.text mode else "")
    ++ (if n.encoding then Helper.encoding.text mode else "") := by
  rw [header, if_pos rfl, String.append_empty]
  rfl

theorem Helper.occurs_text {mode part : String} {helper : Helper} (h : part ∈ helper.parts mode) :
    Occurs part (helper.text mode) := by
  have himports : libraryImports = queryImport ++ clientImport := rfl
  cases helper with
  | require => exact List.mem_singleton.mp h ▸ .refl _
  | libraries =>
    rw [text, himports]
    rcases List.mem_pair.mp h with rfl | rfl
    · exact (Occurs.refl _).append_right _
    · exact (Occurs.refl _).append_left _
  | invalidate => exact List.mem_singleton.mp h ▸ .refl _
  | encoding =>
    rw [text]
    rcases List.mem_pair.mp h with rfl | rfl
    · exact ((Occurs.refl _).append_left _).append_right _
    · exact (Occurs.refl _).append_left _

/-- A text that is in each part of a helper and in no part of another. -/
def Helper.sign : Helper → String
  | .require => "type R"
  | .libraries => "from"
  | .invalidate => "queryKey"
  | .encoding => "encoding"

theorem occurs_encodingFunction (mode : String) : Occurs "encoding" (encodingFunction mode) := by
  unfold encodingFunction
  split_ifs
  · exact (by decide : Occurs "encoding" componentEncoding)
  · unfold strictEncoding
    iterate 5 refine Occurs.append_right ?_ _
    decide

theorem Helper.occurs_sign {mode part : String} {helper : Helper} (h : part ∈ helper.parts mode) :
    Occurs helper.sign part := by
  cases helper with
  | require =>
    rw [List.mem_singleton.mp h]
    exact (by decide : Occurs "type R" requireHelper)
  | libraries =>
    rcases List.mem_pair.mp h with rfl | rfl
    · exact (by decide : Occurs "from" queryImport)
    · exact (by decide : Occurs "from" clientImport)
  | invalidate =>
    have hline : Occurs "queryKey" "  queryKey: string,\n" := by decide
    rw [List.mem_singleton.mp h, invalidateHelper]
    iterate 5 refine Occurs.append_right ?_ _
    exact hline.append_left _
  | encoding =>
    rcases List.mem_pair.mp h with rfl | rfl
    · exact occurs_encodingFunction mode
    · have hline : Occurs "encoding"
          "const encodingTagFactory = (encodingFn: typeof encodeURIComponent) => (\n" := by decide
      unfold encodingTag
      iterate 13 refine Occurs.append_right ?_ _
      exact hline.append_left "\n"

def Helper.foreign (helper : Helper) : List String := (all.erase helper).map sign

theorem Helper.mem_all (helper : Helper) : helper ∈ all := by
  cases helper <;> decide

theorem quiet_banner {sign : String} (hsign : sign ∈ Helper.all.map Helper.sign) :
    Quiet sign banner :=
  .append (Text.quiet_given hsign (by decide)) (Text.quiet_given hsign (by decide))

theorem Helper.quiet_text {other : Helper} {sign : String} (hsign : sign ∈ other.foreign)
    (mode : String) : Quiet sign (other.text mode) := by
  cases other with
  | require =>
    exact .append (Text.quiet_given hsign (by decide)) (Text.quiet_given hsign (by decide))
  | libraries =>
    exact .append (Text.quiet_given hsign (by decide)) (Text.quiet_given hsign (by decide))
  | invalidate =>
    rw [text, invalidateHelper]
    iterate 7 refine Quiet.append ?_ (Text.quiet_given hsign (by decide))
    exact Text.quiet_given hsign (by decide)
  | encoding =>
    have hfunction : Quiet sign (encodingFunction mode) := by
      unfold encodingFunction
      split_ifs
      · exact Text.quiet_given hsign (by decide)
      · unfold strictEncoding
        iterate 5 refine Quiet.append ?_ (Text.quiet_given hsign (by decide))
        exact Text.quiet_given hsign (by decide)
    have htag : Quiet sign encodingTag := by
      unfold encodingTag
      iterate 14 refine Quiet.append ?_ (Text.quiet_given hsign (by decide))
      exact Text.quiet_given hsign (by decide)
    have hbreak : Quiet sign "\n" := Text.quiet_given hsign (by decide)
    exact (hbreak.append hfunction).append htag

theorem occurs_header_iff {n : Needs} {mode part : String} {helper : Helper}
    (h : part ∈ helper.parts mode) :
    Occurs part (header n "" mode) ↔ helper.isNeeded n = true := by
  rw [header_eq]
  constructor
  · intro hpart
    by_contra hunneeded
    -- the helper itself is left out, and its sign is in nothing else
    have hquiet (other : Helper) :
        Quiet helper.sign (if other.isNeeded n then other.text mode else "") := by
      refine .ite (fun hneeded => ?_) fun _ => .empty _
      have hne : helper ≠ other := by
        rintro rfl
        exact hunneeded hneeded
      have hmem : helper ∈ Helper.all.erase other :=
        (List.mem_erase_of_ne hne).mpr helper.mem_all
      exact other.quiet_text (List.mem_map_of_mem hmem) mode
    have hbanner : Quiet helper.sign banner := quiet_banner (List.mem_map_of_mem helper.mem_all)
    have hheader := (((hbanner.append (hquiet .libraries)).append (hquiet .invalidate)).append
      (hquiet .require)).append (hquiet .encoding)
    have hne : helper.sign ≠ "" := by
      cases helper <;> decide
    exact hheader.not_occurs hne ((Helper.occurs_sign h).trans hpart)
  · intro hneeded
    have htext : Occurs part (if helper.isNeeded n then helper.text mode else "") := by
      rw [if_pos hneeded]
      exact Helper.occurs_text h
    cases helper with
    | libraries => exact (((htext.append_left _).append_right _).append_right _).append_right _
    | invalidate => exact ((htext.append_left _).append_right _).append_right _
    | require => exact (htext.append_left _).append_right _
    | encoding => exact htext.append_left _

end Header

section Marks

namespace Helper

def marks : Helper → List String
  | require => ["Require<"]
  | libraries => ["useQuery<", "useMutation<"]
  | invalidate => ["useInvalidateQuery("]
  | encoding => ["encode`"]

theorem mem_markers {m : String} {helper : Helper} (hm : m ∈ helper.marks) : m ∈ markers := by
  have hall : ∀ helper ∈ all, helper.marks ⊆ markers := by decide
  exact hall helper helper.mem_all hm

theorem isNeeded_iff {helper : Helper} {body mode : String} :
    helper.isNeeded (.of body mode) = true ↔
      (helper = .encoding → mode ≠ "") ∧ ∃ m ∈ helper.marks, Occurs m body := by
  have hoccurs (m : String) : Needs.of.occurs body m = true ↔ Occurs m body := Text.occursIn_iff
  cases helper <;> simp [isNeeded, marks, Needs.of, hoccurs]

end Helper

end Marks

variable {document : Value} {options : Options} {shared : Entries} {output : Output}

theorem generate_header {log : Log} (h : generate document options = (.ok output, log)) :
    output.needs = .of (Text.joinWith "" output.blocks) (options.encodingMode.getD "") ∧
      output.header = header output.needs (options.customImport.getD "")
        (options.encodingMode.getD "") := by
  rw [generate, Prod.mk.injEq] at h
  have hrun : Returns (generateIn document options) .start output _ := Prod.ext h.1 rfl
  rw [generateIn] at hrun
  obtain ⟨es, -, hrun⟩ := returns_lift_bind.mp hrun
  obtain ⟨shared, s, -, hrun⟩ := returns_bind.mp hrun
  obtain ⟨blocks, t, -, hrun⟩ := returns_bind.mp hrun
  obtain ⟨routes, -, hrun⟩ := returns_lift_bind.mp hrun
  obtain ⟨bound, u, -, hrun⟩ := returns_bind.mp hrun
  obtain ⟨_, w, -, hrun⟩ := returns_bind.mp hrun
  obtain ⟨rfl, -⟩ := returns_pure.mp hrun
  exact ⟨rfl, rfl⟩

section Body

theorem occurs_body {x : String} (h : (∃ b ∈ output.components, Occurs x b.text) ∨
    ∃ b ∈ output.bound, Occurs x b.text) : Occurs x (Text.joinWith "" output.blocks) := by
  by_cases hne : x = ""
  · rw [hne]
    exact List.nil_infix
  have hblock : ∃ block ∈ output.blocks, Occurs x block := by
    rcases h with ⟨b, hb, hx⟩ | ⟨b, hb, hx⟩
    · refine ⟨b.text, List.mem_append_left _ ?_, hx⟩
      rw [List.mem_filter, bne_iff_ne]
      refine ⟨List.mem_map_of_mem hb, fun hempty => hne ?_⟩
      rw [hempty] at hx
      exact hx.eq_empty
    · exact ⟨b.text, List.mem_append_right _ (List.mem_map_of_mem hb), hx⟩
  obtain ⟨block, hmem, hx⟩ := hblock
  exact hx.trans (.joinWith hmem "")

theorem not_occurs_body {m : String} (hne : m ≠ "")
    (hcomponents : ∀ b ∈ output.components, Quiet m b.text)
    (hbound : ∀ b ∈ output.bound, Quiet m b.text) :
    ¬ Occurs m (Text.joinWith "" output.blocks) := by
  have hblocks : ∀ x ∈ output.blocks, Quiet m x := by
    intro x hx
    rcases List.mem_append.mp hx with hx | hx
    · obtain ⟨b, hb, rfl⟩ := List.mem_map.mp (List.mem_of_mem_filter hx)
      exact hcomponents b hb
    · obtain ⟨b, hb, rfl⟩ := List.mem_map.mp hx
      exact hbound b hb
  exact (Quiet.joinWith (.empty m) hblocks).not_occurs hne

end Body

section Run

variable {s t u v : Session} (hstages : Stages document options shared output s t u v)
  (hgenerator : options.customGenerator = none)
include hstages hgenerator

theorem Stages.writes {b : Bound} (hb : b ∈ output.bound) :
    ∃ c ∈ calls document, ∃ p, c.HasPlan (.ofEntries shared) options p ∧ b.Writes options c p := by
  obtain ⟨c, hc, v, w, hbind⟩ := exists_left_of_forall₂ (forall₂_of_returns_mapM hstages.bound) hb
  exact ⟨c, hc, Operation.bind_writes hgenerator hbind⟩

theorem Stages.shown {r : TypeExpr} (hr : Shows document options shared r) :
    Occurs r.render (Text.joinWith "" output.blocks) := by
  refine occurs_body ?_
  cases hr with
  | component ht => exact .inl (ht.occurs hstages.declared)
  | operation hc hplan ht =>
    obtain ⟨b, hb, v, w, hbind⟩ :=
      exists_right_of_forall₂ (forall₂_of_returns_mapM hstages.bound) hc
    obtain ⟨q, hq, hwrites⟩ := Operation.bind_writes hgenerator hbind
    obtain rfl := hplan.unique hq
    exact .inr ⟨b, hb, hwrites.occurs hplan ht⟩

theorem Stages.hook (hbindings : options.bindings = true) {b : Bound} (hb : b ∈ output.bound)
    {x : String} (hx : Occurs x ((Hook.ofMode options.encodingMode).block b.metadata).text) :
    Occurs x (Text.joinWith "" output.blocks) := by
  obtain ⟨c, -, p, -, hwrites⟩ := hstages.writes hgenerator hb
  exact occurs_body (.inr ⟨b, hb, hwrites.occurs_hook hbindings hx⟩)

theorem Stages.marked {helper : Helper} (hused : helper.Used document options shared output) :
    helper.isNeeded (.of (Text.joinWith "" output.blocks) (options.encodingMode.getD "")) =
      true := by
  rw [Helper.isNeeded_iff]
  cases helper with
  | require =>
    obtain ⟨r, hr, hrequires⟩ := hused
    exact ⟨nofun, _, List.mem_cons_self, hrequires.occurs.trans (hstages.shown hgenerator hr)⟩
  | libraries =>
    obtain ⟨hbindings, hbound⟩ := hused
    obtain ⟨b, hb⟩ := List.exists_mem_of_ne_nil _ hbound
    refine ⟨nofun, ?_⟩
    by_cases hv : b.metadata.verb = "get"
    · refine ⟨_, List.mem_cons_self, ?_⟩
      exact hstages.hook hgenerator hbindings hb (Hook.useQuery_occurs hv)
    · refine ⟨_, List.mem_cons_of_mem _ List.mem_cons_self, ?_⟩
      exact hstages.hook hgenerator hbindings hb (Hook.useMutation_occurs hv)
  | invalidate =>
    obtain ⟨hbindings, b, hb, hv⟩ := hused
    refine ⟨nofun, _, List.mem_cons_self, ?_⟩
    exact hstages.hook hgenerator hbindings hb (Hook.useInvalidateQuery_occurs hv)
  | encoding =>
    obtain ⟨hbindings, hbound, hmode⟩ := hused
    obtain ⟨b, hb⟩ := List.exists_mem_of_ne_nil _ hbound
    have hencodes : (Hook.ofMode options.encodingMode).encodes = true := bne_iff_ne.mpr hmode
    refine ⟨fun _ => hmode, _, List.mem_cons_self, ?_⟩
    exact hstages.hook hgenerator hbindings hb (Hook.block_encodes hencodes _)

end Run

section Clear

variable {s t u v : Session} (hstages : Stages document options shared output s t u v)
  {m : String} (hm : m ∈ markers) (hdocument : document.Clear m)
include hstages hm hdocument

theorem Stages.shared_clear (key : String) : (shared.get key).Clear m := by
  have hplain {x : String} (hlacks : ∀ m ∈ markers, ¬ Occurs m x) (hx : Text.Printable x) :
      Scalar.Clear m (.str x) :=
    Text.Clear.of_printable (hlacks m hm) hx
  exact narrowedComponents_throughout (Value.lasting_clear hm) hdocument
    (hplain (by decide) (by decide)) (hplain (by decide) (by decide)) hstages.narrowed key

theorem Stages.plan_clear {c : Call} {p : Plan} (hc : c ∈ calls document)
    (hplan : c.HasPlan (.ofEntries shared) options p) : p.Clear m := by
  obtain ⟨hroute, hoperation, hparameters⟩ :=
    calls_throughout (Value.lasting_clear hm) hdocument hc
  have hshared : ((Value.ofEntries shared).members.get "parameters").Clear m :=
    hstages.shared_clear hm hdocument "parameters"
  exact Operation.plan_clear hm hshared hroute hoperation hparameters hplan

theorem Stages.shows_clear {r : TypeExpr} (hr : Shows document options shared r) : r.Clear m := by
  have hmembers (key : String) : ∀ e ∈ (shared.get key).members, e.2.Clear m := fun e he =>
    (((hstages.shared_clear hm hdocument key).members (Value.lasting_clear hm)).2 e he).2
  cases hr with
  | component ht =>
    cases ht with
    | schema he ht => exact Schema.typeOf_clear hm _ (hmembers _ _ he) _ _ ht
    | body _ he ht => exact Schema.contentType_clear hm (hmembers _ _ he) ht
  | operation hc hplan ht => exact (hstages.plan_clear hm hdocument hc hplan).shown ht

theorem Stages.unmarked (hgenerator : options.customGenerator = none) {helper : Helper}
    (hmark : m ∈ helper.marks) (hmode : helper = .encoding → options.encodingMode.getD "" ≠ "")
    (hunused : ¬ helper.Used document options shared output) :
    ¬ Occurs m (Text.joinWith "" output.blocks) := by
  -- a marker in a type is that of a use, and one in a hook is that of a helper which it calls
  have htypes {r : TypeExpr} (hr : Shows document options shared r) : ¬ Occurs m r.render := by
    refine (hstages.shows_clear hm hdocument hr).not_occurs hm ?_
    rintro rfl hrequires
    refine hunused ?_
    cases helper with
    | require => exact ⟨r, hr, hrequires⟩
    | _ => exact absurd hmark (by decide)
  have hhooks {b : Bound} (hb : b ∈ output.bound) (hbindings : options.bindings = true) :
      m ∈ Hook.foreign ∧ (b.metadata.verb = "get" → m = "Require<") := by
    have hbound : output.bound ≠ [] := List.ne_nil_of_mem hb
    cases helper with
    | require =>
      obtain rfl := List.mem_singleton.mp hmark
      exact ⟨by decide, fun _ => rfl⟩
    | libraries => exact absurd ⟨hbindings, hbound⟩ hunused
    | invalidate =>
      obtain rfl := List.mem_singleton.mp hmark
      exact ⟨by decide, fun hv => absurd ⟨hbindings, b, hb, hv⟩ hunused⟩
    | encoding => exact absurd ⟨hbindings, hbound, hmode rfl⟩ hunused
  refine not_occurs_body (Text.marker_ne_empty hm) ?_ fun b hb => ?_
  · exact Declaration.componentBlocks_quiet hm (fun r hr => htypes (.component hr))
      (hstages.shared_clear hm hdocument) hstages.declared
  · obtain ⟨c, hc, p, hplan, hwrites⟩ := hstages.writes hgenerator hb
    have hclear := hstages.plan_clear hm hdocument hc hplan
    have hverb : b.metadata.verb = p.verb := by
      rw [hwrites.metadata]
      rfl
    have hknown : p.verb ∈ Operation.verbs := by
      obtain ⟨-, -, -, -, hc, -⟩ := mem_calls_iff.mp hc
      rwa [hplan.verb]
    exact hwrites.quiet hm hclear hknown (fun r hr => htypes (.operation hc hplan hr))
      (hverb ▸ hhooks hb)

end Clear

/-- The head of the output holds the helpers that the code of the run uses. The code is the text of
each expression that is shown, and of the hooks. -/
structure Supplies (document : Value) (options : Options) (shared : Entries) (output : Output) :
    Prop where
  narrowed : ∃ s, Returns (narrowedComponents document.members) .start shared s
  shown : ∀ r, Shows document options shared r →
    Occurs r.render (Text.joinWith "" output.blocks)
  hooks : ∀ b ∈ output.bound, b.hooks =
    if options.bindings then (Hook.ofMode options.encodingMode).block b.metadata else .empty
  supplied : ∀ helper : Helper, helper.Used document options shared output →
    ∀ part ∈ helper.parts (options.encodingMode.getD ""), Occurs part output.header
  needed : ∀ helper : Helper, (∀ m ∈ helper.marks, document.Lacks m) →
    (helper = .encoding → document.Clear "encode`") →
    ∀ part ∈ helper.parts (options.encodingMode.getD ""), Occurs part output.header →
      helper.Used document options shared output

/-- The head of a file holds every helper that the code below it uses, and none that it does not
use, unless a text of the document imitates a use. The tag that encodes is imitated even by the end
of an escape. -/
theorem generate_supplies {log : Log} (hgenerator : options.customGenerator = none)
    (himport : options.customImport = none)
    (h : generate document options = (.ok output, log)) :
    ∃ shared, Supplies document options shared output := by
  obtain ⟨shared, s, t, u, v, -, hstages⟩ := generate_stages h
  obtain ⟨hneeds, hheader⟩ := generate_header h
  rw [hneeds, himport, Option.getD_none] at hheader
  refine ⟨shared, ⟨s, hstages.narrowed⟩, fun r hr => hstages.shown hgenerator hr, ?_, ?_, ?_⟩
  · intro b hb
    obtain ⟨c, -, p, -, hwrites⟩ := hstages.writes hgenerator hb
    exact hwrites.hooks
  · intro helper hused part hpart
    rw [hheader, occurs_header_iff hpart]
    exact hstages.marked hgenerator hused
  · intro helper hlacks hclear part hpart hoccurs
    rw [hheader, occurs_header_iff hpart, Helper.isNeeded_iff] at hoccurs
    obtain ⟨hmode, m, hm, hmark⟩ := hoccurs
    by_contra hunused
    have hdocument : document.Clear m := by
      by_cases hencode : m = "encode`"
      · rw [hencode]
        refine hclear ?_
        rw [hencode] at hm
        cases helper with
        | encoding => rfl
        | _ => exact absurd hm (by decide)
      · exact (hlacks m hm).clear (Helper.mem_markers hm) hencode
    exact hstages.unmarked (Helper.mem_markers hm) hdocument hgenerator hm hmode hunused hmark

def encodingOptions : Options := ⟨true, none, some "uriComponent", none⟩

def encodedRoute : Value :=
  .ofEntries [(.str "paths", .ofEntries [
    (.str "/pets", .ofEntries [(.str "get", .ofEntries [(.str "operationId", .str "pets")])])])]

theorem generate_supplies_encodedRoute :
    ∃ output log shared, generate encodedRoute encodingOptions = (.ok output, log) ∧
      Supplies encodedRoute encodingOptions shared output := by
  obtain ⟨output, log, hrun⟩ : ∃ output log,
      generate encodedRoute encodingOptions = (.ok output, log) :=
    exists_of_isSome (by decide +kernel)
  obtain ⟨shared, hsupplies⟩ := generate_supplies rfl rfl hrun
  exact ⟨output, log, shared, hrun, hsupplies⟩

/-- A type whose only value is the character with the code 14 and the marker without its first. -/
def escapedMark : Value :=
  .ofEntries [(.str "type", .str "string"), (.str "enum", .list [.str "\u000encode`"])]

def escapedDocument : Value :=
  .ofEntries [(.str "components", .ofEntries [(.str "schemas", .ofEntries [
    (.str "Mark", escapedMark)])])]

theorem typeOf_escapedMark (location : String) :
    Schema.typeOf escapedMark location = .ok (.literals ["\"\\u000encode`\""]) := by
  cbv

theorem narrowedComponents_escapedDocument :
    ((narrowedComponents escapedDocument.members).run.run .start).1 =
      .ok [(.str "schemas", .ofEntries [(.str "Mark", escapedMark)])] := by
  cbv

theorem declared_escapedMark : Declaration.SchemasDeclared [(.str "Mark", escapedMark)]
    [Declaration.typeAlias "" "Mark" (.literals ["\"\\u000encode`\""])] := by
  refine .cons ⟨"Mark", rfl, ?_⟩ .nil
  have hobject : ¬ Declaration.isObjectSchema escapedMark = true := by decide
  rw [escapedMark, Value.ofEntries, Declaration.declareSchema, ← Value.ofEntries, ← escapedMark,
    if_neg hobject, typeOf_escapedMark]
  rfl

theorem escapedDocument_lacks : ∀ m ∈ markers, escapedDocument.Lacks m := by
  simp only [Value.Lacks, escapedDocument, escapedMark, Value.ofEntries, Value.str,
    Value.Throughout, Value.EntriesThroughout, Value.ItemsThroughout, Scalar.Lacks]
  decide

theorem encodingTag_mem {mode : String} : encodingTag ∈ Helper.encoding.parts mode :=
  List.mem_cons_of_mem _ List.mem_cons_self

theorem generate_escapedDocument : ∃ output log,
    generate escapedDocument encodingOptions = (.ok output, log) ∧
      output.bound = [] ∧ Occurs encodingTag output.header := by
  have hfilled : (Value.ofEntries [(.str "Mark", escapedMark)]).isFilled = true := by decide
  obtain ⟨output, log, hrun, -⟩ : ∃ output log,
      generate escapedDocument encodingOptions = (.ok output, log) ∧ _ :=
    generate_of_schemas none escapedDocument.members encodingOptions rfl
      narrowedComponents_escapedDocument hfilled declared_escapedMark
  obtain ⟨shared, s, t, u, v, -, hstages⟩ := generate_stages hrun
  refine ⟨output, log, hrun, ?_, ?_⟩
  · have hcalls : calls escapedDocument = [] := by decide
    have hbound := hstages.bound
    rw [hcalls] at hbound
    exact (returns_mapM_nil.mp hbound).1.symm
  · have hnarrowed := congrArg Prod.fst hstages.narrowed
    obtain rfl : _ = shared :=
      Except.ok.inj (narrowedComponents_escapedDocument.symm.trans hnarrowed)
    have hshown := hstages.shown rfl
      (.component (.schema List.mem_cons_self (typeOf_escapedMark _)))
    have hmark : Occurs "encode`" (TypeExpr.literals ["\"\\u000encode`\""]).render := by
      decide
    have hneeded : Helper.encoding.isNeeded output.needs = true := by
      rw [(generate_header hrun).1, Helper.isNeeded_iff]
      exact ⟨fun _ => by decide, _, List.mem_singleton_self _, hmark.trans hshown⟩
    rw [(generate_header hrun).2]
    exact (occurs_header_iff encodingTag_mem).mpr hneeded

/-- The encoding tag is in the head of a file without any operation: the escape of a character ends
in the first character of the marker, and the text goes on with the rest. -/
theorem not_generate_supplies_escapedDocument :
    ¬ ∀ (document : Value) (options : Options) (output : Output) (log : Log),
      options.customGenerator = none → options.customImport = none →
      generate document options = (.ok output, log) →
      ∃ shared s, Returns (narrowedComponents document.members) .start shared s ∧
        ((∀ m ∈ markers, document.Lacks m) → ∀ helper : Helper,
          ∀ part ∈ helper.parts (options.encodingMode.getD ""), Occurs part output.header →
            helper.Used document options shared output) := by
  intro hclaim
  obtain ⟨output, log, hrun, hnone, hheader⟩ := generate_escapedDocument
  obtain ⟨shared, s, -, hneeded⟩ := hclaim escapedDocument encodingOptions output log rfl rfl hrun
  obtain ⟨-, hbound, -⟩ :=
    hneeded escapedDocument_lacks .encoding encodingTag encodingTag_mem hheader
  exact hbound hnone

end ApiBindings.Client
