import Mathlib
import ApiBindings.CommandLine.Run
import ApiBindings.Proofs.Declaration.Run
import ApiBindings.Proofs.Document.Entries
import ApiBindings.Proofs.Files.Tree

/-!
Runs over the targets of a configuration. Main statement: the targets are taken in their order, each
leaves its bindings in its file, and the first one whose bindings cannot be made or encoded ends the
run.
-/

namespace ApiBindings.CommandLine

variable {α β : Type} {around : Surroundings} {s : State} {c : Config}

def Reads (x : Doing α) (s : State) (r : Except Fault α) : Prop :=
  (x.run.run s).1 = r ∧ (x.run.run s).2.tree = s.tree

theorem Reads.bind {x : Doing α} {f : α → Doing β} {r : Except Fault α} {g : α → Except Fault β}
    (hx : Reads x s r) (hf : ∀ a s', r = .ok a → s'.tree = s.tree → Reads (f a) s' (g a)) :
    Reads (x >>= f) s (r >>= g) := by
  unfold Reads at hx ⊢
  rw [ExceptT.run_bind, StateT.run_bind]
  revert hx
  obtain ⟨result, s'⟩ := x.run.run s
  rintro ⟨rfl, htree⟩
  cases result with
  | error e => exact ⟨rfl, htree⟩
  | ok a =>
    obtain ⟨hresult, hrest⟩ := hf a s' rfl htree
    exact ⟨hresult, hrest.trans htree⟩

theorem reads_lift (x : Except Fault α) : Reads (liftM x : Doing α) s x := by
  cases x <;> exact ⟨rfl, rfl⟩

theorem reads_telling (x : Telling α) : Reads (Doing.telling x) s (x.run.run []).1 := by
  unfold Reads
  have hrun : (Doing.telling x).run.run s =
      ((x.run.run []).1, { s with log := s.log ++ (x.run.run []).2 }) := by
    unfold Doing.telling
    obtain ⟨result, log⟩ := x.run.run []
    cases result <;> rfl
  rw [hrun]
  exact ⟨rfl, rfl⟩

theorem Reads.say_bind {line : String} {f : Unit → Doing α} {r : Except Fault α}
    (h : ∀ s', s'.tree = s.tree → Reads (f ()) s' r) : Reads (Doing.say line >>= f) s r :=
  Reads.bind (r := .ok ()) (g := fun _ => r) ⟨rfl, rfl⟩ fun _ s' _ htree => h s' htree

def generated (around : Surroundings) (tree : FileTree) (c : Config) : Except Fault String := do
  let source ← SourceText.of tree around.web c.file c.url
  let transformer ← around.host.find? c.transformer
  let generator ← around.host.find? c.customGenerator
  let format := (c.format.filled?.map Value.text).getD source.format
  ((Client.bindings source.text format ⟨transformer, generator, c.validation, c.skipHooks,
    c.customImport, c.encodingMode⟩).run.run []).1

theorem makeBindings_reads (around : Surroundings) (c : Config) (s : State) :
    Reads (makeBindings around c) s (generated around s.tree c) := by
  refine .say_bind fun s' hs' => .say_bind fun s'' hs'' => ?_
  have hget : Reads (get : Doing State) s'' (.ok s'') := ⟨rfl, rfl⟩
  refine Reads.bind (g := fun _ => generated around s.tree c) hget fun a t ha ht => ?_
  cases ha
  rw [hs'', hs']
  refine (reads_lift _).bind fun source t _ _ => (reads_lift _).bind fun transformer t _ _ =>
    (reads_lift _).bind fun generator t _ _ => .say_bind fun t _ => ?_
  exact reads_telling _

theorem Reads.returns {x : Doing α} {a : α} (h : Reads x s (.ok a)) :
    ∃ s', Returns x s a s' ∧ s'.tree = s.tree :=
  ⟨_, Prod.ext h.1 rfl, h.2⟩

theorem Reads.fails {x : Doing α} {e : Fault} (h : Reads x s (.error e)) :
    ∃ s', Fails x s e s' ∧ s'.tree = s.tree :=
  ⟨_, Prod.ext h.1 rfl, h.2⟩

theorem run_bind_of_returns {x : Doing α} {f : α → Doing β} {a : α} {t : State}
    (h : Returns x s a t) : (x >>= f).run.run s = (f a).run.run t := by
  rw [ExceptT.run_bind, StateT.run_bind, h]
  rfl

theorem run_bind_of_fails {x : Doing α} {f : α → Doing β} {e : Fault} {t : State}
    (h : Fails x s e t) : (x >>= f).run.run s = (.error e, t) :=
  fails_bind.mpr (.inl h)

theorem onFiles_returns {path : String} {f : FileTree → Except FileProblem FileTree} {u : FileTree}
    (h : f s.tree = .ok u) : Returns (onFiles path f) s () { s with tree := u } := by
  refine returns_bind.mpr ⟨s, s, returns_get.mpr ⟨rfl, rfl⟩, ?_⟩
  rw [h]
  rfl

theorem checkName_returns {path : String} (h : Path.misuse? path = none) :
    Returns (checkName path) s () s := by
  rw [checkName, h]
  rfl

theorem makeParent_returns {path : String} {u : FileTree} (hname : Path.misuse? path = none)
    (h : s.tree.prepared path = .ok u) : Returns (makeParent path) s () { s with tree := u } := by
  unfold FileTree.prepared at h
  rw [makeParent]
  split_ifs at h ⊢
  · cases h
    rfl
  · exact returns_bind.mpr
      ⟨(), s, checkName_returns (Path.misuse?_directory hname), onFiles_returns h⟩

theorem run_writeText {path text : String} {opened : FileTree} (hname : Path.misuse? path = none)
    (h : s.tree.replace path "" = .ok opened) :
    (writeText path text).run.run s =
      (checkText text >>= fun _ => onFiles path (·.write path text) : Doing Unit).run.run
        { s with tree := opened } := by
  obtain ⟨made, hmade, hopened⟩ := bind_eq_ok.mp h
  rw [writeText, run_bind_of_returns (makeParent_returns hname hmade),
    run_bind_of_returns (checkName_returns hname)]
  exact run_bind_of_returns (onFiles_returns (s := { s with tree := made }) hopened)

theorem writeText_returns {path text : String} {u : FileTree} (hname : Path.misuse? path = none)
    (htext : Text.isEncodable text = true) (h : s.tree.replace path text = .ok u) :
    Returns (writeText path text) s () { s with tree := u } := by
  obtain ⟨opened, hopened, -⟩ := FileTree.write_of_replace h ""
  obtain ⟨v, hv, hwritten⟩ := FileTree.write_of_replace hopened text
  cases h.symm.trans hv
  refine (run_writeText hname hopened).trans ?_
  refine returns_bind.mpr ⟨(), { s with tree := opened }, ?_, onFiles_returns hwritten⟩
  rw [checkText, if_pos htext]
  rfl

/-- The file is opened before the text is encoded, and stays empty then. -/
theorem writeText_fails {path text : String} {u : FileTree} (hname : Path.misuse? path = none)
    (htext : Text.isEncodable text = false) (h : s.tree.replace path "" = .ok u) :
    Fails (writeText path text) s (.misuse .unencodable) { s with tree := u } := by
  refine (run_writeText hname h).trans (fails_bind.mpr (.inl ?_))
  rw [checkText, if_neg (by simp [htext])]
  rfl

def Writable (tree : FileTree) (output : Value) : Prop :=
  ∃ path, output = .str path ∧ path ≠ "" ∧ Path.misuse? path = none ∧
    ∀ text, ∃ u, tree.replace path text = .ok u

/-- The bindings are made for the target, and its file is replaced by them. -/
def Delivered (around : Surroundings) (c : Config) (before after : FileTree) : Prop :=
  ∃ text path, generated around before c = .ok text ∧ Text.isEncodable text = true ∧
    c.output = .str path ∧ before.replace path text = .ok after ∧
    FileTree.Replaced path text before after

/-- The bindings are made for the target, and its file is emptied for them, but they hold half of a
pair, for which a file has no place. -/
def Emptied (around : Surroundings) (c : Config) (before after : FileTree) : Prop :=
  ∃ text path, generated around before c = .ok text ∧ Text.isEncodable text = false ∧
    c.output = .str path ∧ before.replace path "" = .ok after ∧
    FileTree.Replaced path "" before after

theorem deliver_eq {path : String} (text name : String) (hne : path ≠ "") :
    ∃ rest : Doing Unit, deliver text (.str path) name = (writeText path text >>= fun _ => rest) ∧
      ∀ s : State, ∃ s', Returns rest s () s' ∧ s'.tree = s.tree := by
  have hfilled : ¬ (!(Value.str path).isFilled) = true := by
    simpa [Value.isFilled, Scalar.isFilled] using hne
  rw [deliver, if_neg hfilled]
  exact ⟨_, rfl, fun s =>
    ⟨_, returns_bind.mpr ⟨_, _, returns_get.mpr ⟨rfl, rfl⟩, rfl⟩, rfl⟩⟩

theorem deliver_returns {path text : String} {u : FileTree} (name : String) (hne : path ≠ "")
    (hname : Path.misuse? path = none) (htext : Text.isEncodable text = true)
    (h : s.tree.replace path text = .ok u) :
    ∃ s', Returns (deliver text (.str path) name) s () s' ∧ s'.tree = u := by
  obtain ⟨rest, hdeliver, hrest⟩ := deliver_eq text name hne
  obtain ⟨s', hs', htree⟩ := hrest { s with tree := u }
  rw [hdeliver]
  exact ⟨s', returns_bind.mpr ⟨(), _, writeText_returns hname htext h, hs'⟩, htree⟩

theorem deliver_fails {path text : String} {u : FileTree} (name : String) (hne : path ≠ "")
    (hname : Path.misuse? path = none) (htext : Text.isEncodable text = false)
    (h : s.tree.replace path "" = .ok u) :
    Fails (deliver text (.str path) name) s (.misuse .unencodable) { s with tree := u } := by
  obtain ⟨rest, hdeliver, -⟩ := deliver_eq text name hne
  rw [hdeliver]
  exact fails_bind.mpr (.inl (writeText_fails hname htext h))

theorem runTarget_cases (around : Surroundings) (name : String) (c : Config) (s : State)
    (hwritable : Writable s.tree c.output) :
    (∃ s', Returns (runTarget around name c) s () s' ∧ Delivered around c s.tree s'.tree) ∨
    (∃ e s', Fails (runTarget around name c) s e s' ∧ generated around s.tree c = .error e ∧
      s'.tree = s.tree) ∨
    ∃ s', Fails (runTarget around name c) s (.misuse .unencodable) s' ∧
      Emptied around c s.tree s'.tree := by
  have hreads := makeBindings_reads around c s
  cases hgenerated : generated around s.tree c with
  | error e =>
    rw [hgenerated] at hreads
    obtain ⟨s', hfails, htree⟩ := hreads.fails
    exact .inr (.inl ⟨e, s', fails_bind.mpr (.inl hfails), rfl, htree⟩)
  | ok text =>
    rw [hgenerated] at hreads
    obtain ⟨made, hmade, htree⟩ := hreads.returns
    obtain ⟨path, houtput, hne, hname, hwrite⟩ := hwritable
    rw [← htree] at hwrite
    cases htext : Text.isEncodable text with
    | true =>
      obtain ⟨u, hu⟩ := hwrite text
      obtain ⟨s', hs', rfl⟩ := deliver_returns name hne hname htext hu
      rw [← houtput] at hs'
      rw [htree] at hu
      exact .inl ⟨s', returns_bind.mpr ⟨text, made, hmade, hs'⟩, text, path, hgenerated, htext,
        houtput, hu, FileTree.replaced_of_replace hu⟩
    | false =>
      obtain ⟨u, hu⟩ := hwrite ""
      have hfails := deliver_fails name hne hname htext hu
      rw [← houtput] at hfails
      rw [htree] at hu
      exact .inr (.inr ⟨_, fails_bind.mpr (.inr ⟨text, made, hmade, hfails⟩), text, path,
        hgenerated, htext, houtput, hu, FileTree.replaced_of_replace hu⟩)

inductive DeliveredAll (around : Surroundings) : FileTree → Targets → FileTree → Prop
  | nil {tree : FileTree} : DeliveredAll around tree [] tree
  | cons {before between after : FileTree} {name : String} {c : Config} {rest : Targets} :
    Delivered around c before between → DeliveredAll around between rest after →
    DeliveredAll around before ((name, c) :: rest) after

/-- The output of every target is a file that can be written when its turn comes. -/
def WritableInTurn (around : Surroundings) : FileTree → Targets → Prop
  | _, [] => True
  | before, (_, c) :: rest => Writable before c.output ∧
    ∀ between, Delivered around c before between → WritableInTurn around between rest

/-- How the targets end that are taken up to the first one whose bindings cannot be made, or cannot
be encoded. -/
inductive Ended (around : Surroundings) (tree : FileTree) (targets : Targets) :
    Except Fault Unit → FileTree → Prop
  | all {final : FileTree} : DeliveredAll around tree targets final →
    Ended around tree targets (.ok ()) final
  | failed {done rest : Targets} {name : String} {c : Config} {current : FileTree} {e : Fault} :
    targets = done ++ (name, c) :: rest → DeliveredAll around tree done current →
    generated around current c = .error e → Ended around tree targets (.error e) current
  | emptied {done rest : Targets} {name : String} {c : Config} {current final : FileTree} :
    targets = done ++ (name, c) :: rest → DeliveredAll around tree done current →
    Emptied around c current final →
    Ended around tree targets (.error (.misuse .unencodable)) final

theorem Ended.cons {before between after : FileTree} {name : String} {rest : Targets}
    {r : Except Fault Unit} (hc : Delivered around c before between)
    (h : Ended around between rest r after) : Ended around before ((name, c) :: rest) r after := by
  cases h with
  | all hall => exact .all (.cons hc hall)
  | failed htargets hdone hgenerated =>
    exact .failed (by rw [htargets, List.cons_append]) (.cons hc hdone) hgenerated
  | emptied htargets hdone hemptied =>
    exact .emptied (by rw [htargets, List.cons_append]) (.cons hc hdone) hemptied

theorem runTargets_ended {targets : Targets} (hwritable : WritableInTurn around s.tree targets) :
    Ended around s.tree targets ((runTargets around targets).run.run s).1
      ((runTargets around targets).run.run s).2.tree := by
  induction targets generalizing s with
  | nil => exact .all .nil
  | cons target rest ih =>
    obtain ⟨name, c⟩ := target
    obtain ⟨houtput, hrest⟩ := hwritable
    rw [runTargets]
    rcases runTarget_cases around name c s houtput with
      ⟨s', hs', hdelivered⟩ | ⟨e, s', hs', hgenerated, htree⟩ | ⟨s', hs', hemptied⟩
    · rw [run_bind_of_returns hs']
      exact .cons hdelivered (ih (hrest _ hdelivered))
    · rw [run_bind_of_fails hs', htree]
      exact .failed (List.nil_append _).symm .nil hgenerated
    · rw [run_bind_of_fails hs']
      exact .emptied (List.nil_append _).symm .nil hemptied

def chosen (targets : Targets) (names : List String) : Targets :=
  targets.filter fun t => names = [] ∨ t.1 ∈ names

theorem chosen_nil (targets : Targets) : chosen targets [] = targets := by
  simp [chosen]

theorem selected_eq (targets : Targets) (names : List String) :
    selected targets names = chosen targets names := by
  unfold selected chosen
  cases names with
  | nil => simp
  | cons name rest => simp

theorem reportMissing_reads (missing : List String) (s : State) :
    Reads (reportMissing missing) s (.ok ()) := by
  unfold reportMissing
  split
  · exact ⟨rfl, rfl⟩
  · exact ⟨rfl, rfl⟩

def statusOf : Except Fault Unit → Except Fault Nat
  | .ok () => .ok success
  | .error (.failure _ _) => .ok failed
  | .error e => .error e

theorem carryOut_targets (around : Surroundings) {a : Arguments} {path : String}
    {targets : Targets} (hconfig : given a.config = some path)
    (htargets : Config.targetsAt s.tree path "" = .ok (some targets)) :
    ∃ s', s'.tree = s.tree ∧ (carryOut around a).run.run s =
      ((runTargets around (chosen targets (a.targets.getD [])) >>= fun _ => pure success)
        : Doing Nat).run.run s' := by
  obtain ⟨s', hs', htree⟩ :=
    (reportMissing_reads (missingNames targets (a.targets.getD [])) s).returns
  refine ⟨s', htree, ?_⟩
  have hlocated : Returns (liftM (Config.targetsAt s.tree path "") : Doing (Option Targets)) s
      (some targets) s := returns_lift.mpr ⟨htargets, rfl⟩
  rw [← selected_eq, carryOut, hconfig]
  exact (run_bind_of_returns (returns_get.mpr ⟨rfl, rfl⟩)).trans
    ((run_bind_of_returns hlocated).trans (run_bind_of_returns hs'))

theorem run_tryCatch (x : Doing α) (f : Fault → Doing α) (s : State) :
    (tryCatch x f).run.run s =
      match x.run.run s with
      | (.ok a, t) => (.ok a, t)
      | (.error e, t) => (f e).run.run t := by
  rw [ExceptT.run_tryCatch, StateT.run_bind]
  obtain ⟨result, t⟩ := x.run.run s
  cases result <;> rfl

theorem reportingFailures_ends {x : Doing Unit} {action : Doing Nat} {t : State}
    (h : action.run.run s = (x >>= fun _ => pure success : Doing Nat).run.run t) :
    ((reportingFailures action).run.run s).1 = statusOf (x.run.run t).1 ∧
      ((reportingFailures action).run.run s).2.tree = (x.run.run t).2.tree := by
  rw [reportingFailures, run_tryCatch, h, ExceptT.run_bind, StateT.run_bind]
  obtain ⟨result, u⟩ := x.run.run t
  cases result with
  | ok _ => exact ⟨rfl, rfl⟩
  | error e => cases e <;> exact ⟨rfl, rfl⟩

section Run

variable {tree : FileTree} {words : List String} {a : Arguments} {path : String} {targets : Targets}

/-- A run with a configuration is the run over its chosen targets, behind what it prints first. -/
theorem run_chosen (around : Surroundings) (hwords : Arguments.ofTexts words = .ok a)
    (hconfig : given a.config = some path)
    (htargets : Config.targetsAt tree path "" = .ok (some targets)) :
    ∃ s : State, s.tree = tree ∧
      (run around tree words).status =
        statusOf ((runTargets around (chosen targets (a.targets.getD []))).run.run s).1 ∧
      (run around tree words).state.tree =
        ((runTargets around (chosen targets (a.targets.getD []))).run.run s).2.tree := by
  obtain ⟨s, htree, hcarried⟩ :=
    carryOut_targets (s := ⟨tree, "", []⟩) around hconfig htargets
  obtain ⟨hstatus, hfinal⟩ := reportingFailures_ends hcarried
  rw [run, hwords]
  exact ⟨s, htree, hstatus, hfinal⟩

/-- A run over targets takes the chosen ones in their order, up to the first one whose bindings
cannot be made or encoded. Each before it has its output replaced by its bindings as they are at its
turn; if they cannot be encoded, the output is left empty. No other file changes, and the status
tells how the targets ended. -/
theorem run_ended (hwords : Arguments.ofTexts words = .ok a)
    (hconfig : given a.config = some path)
    (htargets : Config.targetsAt tree path "" = .ok (some targets))
    (hwritable : WritableInTurn around tree (chosen targets (a.targets.getD []))) :
    ∃ result, Ended around tree (chosen targets (a.targets.getD [])) result
        (run around tree words).state.tree ∧
      (run around tree words).status = statusOf result := by
  obtain ⟨s, rfl, hstatus, hfinal⟩ := run_chosen around hwords hconfig htargets
  rw [hfinal, hstatus]
  exact ⟨_, runTargets_ended hwritable, rfl⟩

end Run

/-- Surroundings without extensions, where the web gives no answer. -/
def isolated : Surroundings := ⟨[], fun _ => none⟩

/-- A directory with a configuration of two targets, of which one reads what the other writes. -/
def chainedTargets : FileTree where
  home := ["home"]
  files := [
    (["home", "targets.toml"],
      "[targets.first]\nfile = \"spec.json\"\noutput = \"first.ts\"\n" ++
      "[targets.second]\nfile = \"first.ts\"\noutput = \"second.ts\"\n"),
    (["home", "spec.json"], "\x7b\"openapi\": \"3.0.0\"\x7d")]
  directories := []

theorem writableInTurn_chainedTargets {targets : Targets}
    (h : targets.map (fun t => t.2.output.expectText.toOption) =
      [some "first.ts", some "second.ts"]) :
    WritableInTurn isolated chainedTargets targets := by
  obtain ⟨⟨first, c⟩, rest, rfl, hc, h⟩ := List.map_eq_cons_iff.mp h
  obtain ⟨⟨second, d⟩, rest, rfl, hd, h⟩ := List.map_eq_cons_iff.mp h
  cases List.map_eq_nil_iff.mp h
  have hc : c.output = .str "first.ts" := Value.expectText_ok (toOption_eq_some.mp hc)
  have hd : d.output = .str "second.ts" := Value.expectText_ok (toOption_eq_some.mp hd)
  refine ⟨⟨"first.ts", hc, by decide, by decide, fun text => ⟨_, rfl⟩⟩, fun between h => ?_⟩
  obtain ⟨text, path, -, -, hpath, hreplaced, -⟩ := h
  cases hc.symm.trans hpath
  cases hreplaced
  exact ⟨⟨"second.ts", hd, by decide, by decide, fun text => ⟨_, rfl⟩⟩, fun _ _ => trivial⟩

theorem run_ended_chainedTargets : ∃ targets result,
    Config.targetsAt chainedTargets "targets.toml" "" = .ok (some targets) ∧
    Ended isolated chainedTargets (chosen targets ["second", "third", "first"]) result
      (run isolated chainedTargets
        ["second", "third", "first", "--config", "targets.toml"]).state.tree ∧
    (run isolated chainedTargets
      ["second", "third", "first", "--config", "targets.toml"]).status = statusOf result := by
  have hwords : ((Arguments.ofTexts ["second", "third", "first", "--config", "targets.toml"]
      ).toOption.map fun a => (given a.config, a.targets.getD [])) =
      some (some "targets.toml", ["second", "third", "first"]) := by decide +kernel
  have htargets : ((Config.targetsAt chainedTargets "targets.toml" "").toOption.join.map fun ts =>
      (chosen ts ["second", "third", "first"]).map fun t => t.2.output.expectText.toOption) =
      some [some "first.ts", some "second.ts"] := by decide +kernel
  obtain ⟨a, ha, hfields⟩ := Option.map_eq_some_iff.mp hwords
  obtain ⟨targets, hjoined, houtputs⟩ := Option.map_eq_some_iff.mp htargets
  obtain ⟨hconfig, hnames⟩ := Prod.mk.inj hfields
  have hlocated := toOption_eq_some.mp (Option.join_eq_some_iff.mp hjoined)
  have hwritable : WritableInTurn isolated chainedTargets (chosen targets (a.targets.getD [])) := by
    rw [hnames]
    exact writableInTurn_chainedTargets houtputs
  obtain ⟨result, hended, hstatus⟩ :=
    run_ended (toOption_eq_some.mp ha) hconfig hlocated hwritable
  exact ⟨targets, result, hlocated, hnames ▸ hended, hstatus⟩

section Plain

/-- A target that names its document and its output only. -/
def fromTo (file output : String) : Config :=
  { Config.empty with file := .str file, output := .str output }

def scalars (c : Config) : List (Option Scalar) := c.fields.map fun f => f.2.expectKey.toOption

theorem eq_fromTo {file output : String} (h : scalars c = scalars (fromTo file output)) :
    c = fromTo file output := by
  have hscalar {v : Value} {k : Scalar}
      (h : v.expectKey.toOption = (Value.scalar k).expectKey.toOption) : v = .scalar k :=
    Value.expectKey_ok (toOption_eq_some.mp h)
  cases c
  simp only [scalars, Config.fields, fromTo, List.map_cons, List.cons.injEq] at h
  obtain ⟨h1, h2, h3, h4, h5, h6, h7, h8, h9, h10, -⟩ := h
  rw [hscalar h1, hscalar h2, hscalar h3, hscalar h4, hscalar h5, hscalar h6, hscalar h7,
    hscalar h8, hscalar h9, hscalar h10]
  rfl

theorem returns_bindings {text format : String} {document : Value} {log : Log}
    {output : Client.Output} (hload : Returns (Document.load text format none) [] document log)
    (h : (Client.generate document .default).1 = .ok output) :
    ∃ log', Returns (Client.bindings text format
      ⟨none, none, .bool false, .bool false, .null, .null⟩) [] output.text log' := by
  refine ⟨log ++ (Client.generate document .default).2,
    returns_bind.mpr ⟨document, log, hload, ?_⟩⟩
  change Returns (Telling.tellAll (Client.generate document .default).2 >>= fun _ =>
    (liftM (Client.generate document .default).1 >>= fun o => pure o.text) : Telling String) _ _ _
  exact returns_bind.mpr ⟨(), _, rfl, returns_lift_bind.mpr ⟨output, h, rfl⟩⟩

theorem generated_fromTo {tree : FileTree} {file text : String} {document : Value}
    {result : Client.Output} (output : String)
    (hsource : SourceText.of tree isolated.web (.str file) .null = .ok ⟨text, "json"⟩)
    (hread : Document.read text "json" = .ok document)
    (haccepted : ((Document.accept document).run.run []).1 = .ok document)
    (h : (Client.generate document .default).1 = .ok result) :
    generated isolated tree (fromTo file output) = .ok result.text := by
  have hload : Returns (Document.load text "json" none) [] document _ :=
    returns_lift_bind.mpr ⟨document, hread, Prod.ext haccepted rfl⟩
  obtain ⟨log, hbindings⟩ := returns_bindings hload h
  refine bind_eq_ok.mpr ⟨_, hsource, bind_eq_ok.mpr ⟨none, rfl, bind_eq_ok.mpr ⟨none, rfl, ?_⟩⟩⟩
  exact congrArg Prod.fst hbindings

end Plain

def halfText : String :=
  "\x7b\"openapi\":\"3.0.0\",\"components\":\x7b\"schemas\":\x7b\"A\":" ++
  "\x7b\"enum\":[\"\\ud800\"]\x7d\x7d\x7d\x7d"

def halfDocument : Value :=
  .ofEntries [(.str "openapi", .str "3.0.0"), (.str "components", .ofEntries [
    (.str "schemas", .ofEntries [(.str "A", .ofEntries [
      (.str "enum", .list [.str (String.singleton (Text.ofCodePoint 0xd800))])])])])]

def emptyText : String := "\x7b\"openapi\":\"3.0.0\"\x7d"

def emptyDocument : Value := .ofEntries [(.str "openapi", .str "3.0.0")]

/-- A directory with a configuration of two targets with one output. The document of the first one
has half of a pair in it. -/
def halfTargets : FileTree where
  home := ["home"]
  files := [
    (["home", "openapi.toml"],
      "[targets.first]\nfile = \"first.json\"\noutput = \"api.ts\"\n" ++
      "[targets.second]\nfile = \"second.json\"\noutput = \"api.ts\"\n"),
    (["home", "first.json"], halfText), (["home", "second.json"], emptyText)]
  directories := []

theorem read_halfText : Document.read halfText "json" = .ok halfDocument := by
  cbv

theorem read_emptyText : Document.read emptyText "json" = .ok emptyDocument := by
  cbv

theorem generate_halfDocument :
    (Client.generate halfDocument .default).1.toOption.map (fun o => Text.isEncodable o.text) =
      some false := by
  cbv

theorem generate_emptyDocument : (Client.generate emptyDocument .default).1.toOption.map (·.text) =
    some "/* Generated by openapi-tsgen */\n\n" := by decide +kernel

theorem targetsAt_halfTargets : Config.targetsAt halfTargets "openapi.toml" "" = .ok (some
    [("first", fromTo "first.json" "api.ts"), ("second", fromTo "second.json" "api.ts")]) := by
  have htargets : ((Config.targetsAt halfTargets "openapi.toml" "").toOption.join.map fun ts =>
      ts.map fun t => (t.1, scalars t.2)) = some
        [("first", scalars (fromTo "first.json" "api.ts")),
         ("second", scalars (fromTo "second.json" "api.ts"))] := by decide +kernel
  obtain ⟨targets, hjoined, h⟩ := Option.map_eq_some_iff.mp htargets
  obtain ⟨⟨_, c⟩, rest, rfl, hc, h⟩ := List.map_eq_cons_iff.mp h
  obtain ⟨⟨_, d⟩, rest, rfl, hd, h⟩ := List.map_eq_cons_iff.mp h
  cases List.map_eq_nil_iff.mp h
  obtain ⟨rfl, hc⟩ := Prod.mk.inj hc
  obtain ⟨rfl, hd⟩ := Prod.mk.inj hd
  obtain rfl := eq_fromTo hc
  obtain rfl := eq_fromTo hd
  exact toOption_eq_some.mp (Option.join_eq_some_iff.mp hjoined)

/-- No bindings fail here, but those of the first target hold half of a pair: the output is left
empty, and the second target is not reached. -/
theorem run_empties_halfTargets : ∃ first second half plain written,
    Config.targetsAt halfTargets "openapi.toml" "" =
      .ok (some [("first", first), ("second", second)]) ∧
    Writable halfTargets first.output ∧ generated isolated halfTargets first = .ok half ∧
    halfTargets.replace "api.ts" half = .ok written ∧
    Writable written second.output ∧ generated isolated written second = .ok plain ∧ plain ≠ "" ∧
    (run isolated halfTargets ["--config", "openapi.toml"]).status =
      .error (.misuse .unencodable) ∧
    (run isolated halfTargets ["--config", "openapi.toml"]).state.tree.read "api.ts" = .ok "" := by
  obtain ⟨half, hhalf, hencodable⟩ := Option.map_eq_some_iff.mp generate_halfDocument
  obtain ⟨plain, hplain, htext⟩ := Option.map_eq_some_iff.mp generate_emptyDocument
  have hfirst : generated isolated halfTargets (fromTo "first.json" "api.ts") = .ok half.text :=
    generated_fromTo "api.ts" rfl read_halfText rfl (toOption_eq_some.mp hhalf)
  have hwritable : Writable halfTargets (fromTo "first.json" "api.ts").output :=
    ⟨"api.ts", rfl, by decide, by decide, fun text => ⟨_, rfl⟩⟩
  have hwords : ((Arguments.ofTexts ["--config", "openapi.toml"]).toOption.map fun a =>
      (given a.config, a.targets.getD [])) = some (some "openapi.toml", []) := by decide +kernel
  obtain ⟨a, ha, hfields⟩ := Option.map_eq_some_iff.mp hwords
  obtain ⟨hconfig, hnames⟩ := Prod.mk.inj hfields
  obtain ⟨s, htree, hstatus, hfinal⟩ :=
    run_chosen isolated (toOption_eq_some.mp ha) hconfig targetsAt_halfTargets
  rw [hnames, chosen_nil] at hstatus hfinal
  have hended : ∃ s', Fails (runTarget isolated "first" (fromTo "first.json" "api.ts")) s
      (.misuse .unencodable) s' ∧ halfTargets.replace "api.ts" "" = .ok s'.tree := by
    rcases runTarget_cases isolated "first" _ s (htree.symm ▸ hwritable) with
      ⟨s', -, text, path, hgenerated, htext, -⟩ | ⟨e, s', -, hgenerated, -⟩ |
        ⟨s', hs', text, path, -, -, houtput, hemptied, -⟩
    · rw [htree, hfirst] at hgenerated
      cases hgenerated
      rw [hencodable] at htext
      cases htext
    · rw [htree, hfirst] at hgenerated
      cases hgenerated
    · cases houtput
      exact ⟨s', hs', htree ▸ hemptied⟩
  obtain ⟨s', hs', hemptied⟩ := hended
  obtain ⟨made, -, hwrite⟩ := bind_eq_ok.mp hemptied
  rw [runTargets, run_bind_of_fails hs'] at hstatus hfinal
  refine ⟨_, _, half.text, plain.text, _, targetsAt_halfTargets, hwritable, hfirst, rfl,
    ⟨"api.ts", rfl, by decide, by decide, fun text => ⟨_, rfl⟩⟩,
    generated_fromTo "api.ts" rfl read_emptyText rfl (toOption_eq_some.mp hplain), ?_, hstatus, ?_⟩
  · rw [htext]
    decide
  · rw [hfinal]
    exact (FileTree.read_of_write hwrite (by decide) (by decide)).2

end ApiBindings.CommandLine
