import ApiBindings.Client.Generate
import ApiBindings.Proofs.Declaration.Declared
import ApiBindings.Proofs.Operation.Session

/-!
The operations of a document as a list of calls, and what a run that returns is made of. Main
statement: the operations are bound one after the other in the order of this list.
-/

namespace ApiBindings

namespace Client

open Operation (Call Options Bound)
open Declaration (SchemasDeclared Statement componentBlocks returns_declareSchemas)

def isOperation (e : Scalar × Value) : Bool :=
  Operation.verbs.any fun verb => e.1.equals (.str verb)

def pathCalls (route : Scalar) (path : Value) : List Call :=
  (path.members.filter isOperation).map fun e =>
    ⟨e.2.members, e.1.text, route, path.members.get "parameters"⟩

def paths (document : Value) : Entries := (document.members.get "paths").members

def calls (document : Value) : List Call := (paths document).flatMap fun e => pathCalls e.1 e.2

variable {document : Value} {options : Options} {components : Value} {s t : Session}

theorem generate_eq (document : Value) (options : Options) :
    generate document options = (((generateIn document options).run.run .start).1,
      ((generateIn document options).run.run .start).2.log) :=
  rfl

theorem bindPath_calls {route : Scalar} {path : Value} {bs : List Bound}
    (h : Returns (bindPath components options route path) s bs t) :
    Returns ((pathCalls route path).mapM (Operation.bind components options)) s bs t := by
  rw [bindPath] at h
  obtain ⟨es, hes, h⟩ := returns_lift_bind.mp h
  cases Value.entriesOrNone_ok hes
  refine returns_mapM_map (fun e s b t h => ?_) h
  obtain ⟨operation, hoperation, h⟩ := returns_lift_bind.mp h
  cases Value.entriesOrNone_ok hoperation
  exact h

/-- The stages of a run that returns: the components are narrowed and declared, then the calls of
the document are bound. -/
structure Stages (document : Value) (options : Options) (shared : Entries) (output : Output)
    (s t u v : Session) : Prop where
  narrowed : Returns (narrowedComponents document.members) .start shared s
  declared : Returns (Declaration.componentBlocks (.ofEntries shared)) s output.components t
  bound : Returns ((calls document).mapM (Operation.bind (.ofEntries shared) options)) t
    output.bound u
  told : ∃ event, v = { u with log := u.log ++ [event] }

theorem generateIn_stages {output : Output} {v : Session}
    (h : Returns (generateIn document options) .start output v) :
    ∃ shared s t u, Stages document options shared output s t u v := by
  rw [generateIn] at h
  obtain ⟨es, hes, h⟩ := returns_lift_bind.mp h
  cases Value.entries_ok hes
  obtain ⟨shared, s, hnarrowed, h⟩ := returns_bind.mp h
  obtain ⟨blocks, t, hblocks, h⟩ := returns_bind.mp h
  obtain ⟨routes, hroutes, h⟩ := returns_lift_bind.mp h
  cases Value.entriesOrNone_ok hroutes
  obtain ⟨bound, u, hbound, h⟩ := returns_bind.mp h
  obtain ⟨_, w, htell, h⟩ := returns_bind.mp h
  obtain ⟨rfl, rfl⟩ := returns_pure.mp h
  refine ⟨shared, s, t, u, hnarrowed, hblocks, ?_, _, (returns_modify.mp htell).symm⟩
  exact returns_mapM_flatten (fun e s bs t h => bindPath_calls h) hbound

theorem generate_stages {output : Output} {log : Log}
    (h : generate document options = (.ok output, log)) :
    ∃ shared s t u v, v.log = log ∧ Stages document options shared output s t u v := by
  rw [generate, Prod.mk.injEq] at h
  obtain ⟨shared, s, t, u, hstages⟩ := generateIn_stages (Prod.ext h.1 rfl)
  exact ⟨shared, s, t, u, _, h.2, hstages⟩

section Schemas

def schemasText (declared : List Statement) (options : Options) : String :=
  let code := Text.joinWith "" (codeBlocks [⟨"", declared, "\n\n", "\n"⟩, .empty, .empty] [])
  let mode := options.encodingMode.getD ""
  header (Needs.of code mode) (options.customImport.getD "") mode ++ code

theorem generate_of_schemas {l : Option Nat} {schemas : Entries} {declared : List Statement}
    (label : Option Nat) (es : Entries) (options : Options) (hpaths : es.get "paths" = .null)
    (hshared : ((narrowedComponents es).run.run .start).1 =
      .ok [(.str "schemas", .map l schemas)])
    (hfilled : (Value.map l schemas).isFilled = true) (h : SchemasDeclared schemas declared) :
    ∃ output log, generate (.map label es) options = (.ok output, log) ∧
      output.text = schemasText declared options := by
  obtain ⟨s, hnarrowed⟩ : ∃ s, Returns (narrowedComponents es) .start _ s :=
    ⟨_, Prod.ext hshared rfl⟩
  obtain ⟨t, ht⟩ := returns_declareSchemas hfilled h s
  have hdeclared : Returns (componentBlocks (.ofEntries [(.str "schemas", .map l schemas)])) s
      [⟨"", declared, "\n\n", "\n"⟩, .empty, .empty] t :=
    returns_lift_bind.mpr ⟨_, rfl, returns_bind.mpr ⟨_, t, ht, rfl⟩⟩
  have hrun : ∃ output v, Returns (generateIn (.map label es) options) .start output v ∧
      output.text = schemasText declared options :=
    ⟨_, _, returns_lift_bind.mpr ⟨es, rfl, returns_bind.mpr ⟨_, s, hnarrowed,
      returns_bind.mpr ⟨_, t, hdeclared, returns_lift_bind.mpr ⟨[], by rw [hpaths]; rfl, rfl⟩⟩⟩⟩,
      rfl⟩
  obtain ⟨output, v, hrun, houtput⟩ := hrun
  rw [generate_eq, hrun]
  exact ⟨output, v.log, rfl, houtput⟩

end Schemas

end Client

end ApiBindings
