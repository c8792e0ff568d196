import ApiBindings.Proofs.Declaration.Run
import ApiBindings.Proofs.Success
import ApiBindings.Declaration.Component
import Mathlib.Data.List.Nodup
import Mathlib.Tactic.SplitIfs

/-!
The names that a run registers. Main statement: unless a clash is told, the registry grows by the
declared names, and all its names stay distinct.
-/

namespace ApiBindings

open Declaration (Statement Block)

def Registry.names (r : Registry) : List String := r.origins.map Prod.fst

/-- No event of the log reports a name that is declared a second time. -/
def NoClash (log : Log) : Prop :=
  ∀ name origin earlier, Registry.clash name origin earlier ∉ log

theorem Registry.origin?_eq_none {r : Registry} {name : String} (h : r.origin? name = none) :
    name ∉ r.names := by
  intro hn
  obtain ⟨p, hp, rfl⟩ := List.mem_map.mp hn
  have := List.lookup_eq_none_iff.mp h p hp
  simp at this

structure Registers (s : Session) (names : List String) (t : Session) : Prop where
  kept : ∀ e ∈ s.log, e ∈ t.log
  grown : NoClash t.log → t.registry.names = s.registry.names ++ names ∧
    (s.registry.names.Nodup → t.registry.names.Nodup)

namespace Registers

variable {s t u : Session} {names more : List String} {α β : Type}

theorem none (hr : t.registry = s.registry) (hl : ∀ e ∈ s.log, e ∈ t.log) : Registers s [] t :=
  ⟨hl, fun _ => by rw [hr, List.append_nil]; exact ⟨rfl, id⟩⟩

theorem refl (s : Session) : Registers s [] s := none rfl fun _ h => h

theorem trans (h : Registers s names t) (hm : Registers t more u) :
    Registers s (names ++ more) u := by
  refine ⟨fun e he => hm.kept e (h.kept e he), fun hu => ?_⟩
  obtain ⟨ht, hnt⟩ := hm.grown hu
  obtain ⟨hs, hns⟩ := h.grown fun name origin earlier he => hu name origin earlier (hm.kept _ he)
  exact ⟨by rw [ht, hs, List.append_assoc], fun hn => hnt (hns hn)⟩

theorem register {name origin : String} {a : Unit}
    (h : Returns (Declaring.register name origin) s a t) : Registers s [name] t := by
  have ht := returns_modify.mp h
  rw [Registry.register] at ht
  cases ho : s.registry.origin? name with
  | some earlier =>
    rw [ho] at ht
    subst ht
    refine ⟨fun e he => List.mem_append_left _ he, fun hc => ?_⟩
    exact absurd (List.mem_append_right _ (List.mem_singleton_self _)) (hc name origin earlier)
  | none =>
    rw [ho] at ht
    subst ht
    refine ⟨fun e he => List.mem_append_left _ he, fun _ => ?_⟩
    have hnames : Registry.names ⟨s.registry.origins ++ [(name, origin)]⟩ =
        s.registry.names ++ [name] := by
      simp [Registry.names]
    refine ⟨hnames, fun hn => ?_⟩
    rw [hnames, List.nodup_append]
    refine ⟨hn, List.nodup_singleton name, ?_⟩
    rintro x hx y hy rfl
    exact Registry.origin?_eq_none ho (List.mem_singleton.mp hy ▸ hx)

theorem tell {event : Event} {a : Unit} (h : Returns (Declaring.tell event) s a t) :
    Registers s [] t := by
  have ht := returns_modify.mp h
  subst ht
  exact none rfl fun e he => List.mem_append_left _ he

theorem mapM {f : α → Declaring β} {xs : List α} {bs : List β} (namesOf : β → List String)
    (hf : ∀ x ∈ xs, ∀ s b t, Returns (f x) s b t → Registers s (namesOf b) t)
    (h : Returns (xs.mapM f) s bs t) : Registers s (bs.flatMap namesOf) t := by
  induction xs generalizing s bs with
  | nil =>
    obtain ⟨rfl, rfl⟩ := returns_mapM_nil.mp h
    exact refl s
  | cons x xs ih =>
    obtain ⟨b, u, cs, hb, hcs, rfl⟩ := returns_mapM_cons.mp h
    rw [List.flatMap_cons]
    exact (hf x List.mem_cons_self s b u hb).trans
      (ih (fun y hy => hf y (List.mem_cons_of_mem x hy)) hcs)

end Registers

section Distinct

variable {s t : Session} {name other origin : String} {names : List String}

theorem Registry.origin?_register_of_ne (r : Registry) (h : other ≠ name) :
    (r.register name origin).1.origin? other = r.origin? other := by
  unfold Registry.register
  split
  · rfl
  · have hnone : [(name, origin)].lookup other = none := by simp [h]
    rw [Registry.origin?, List.lookup_append, hnone, Option.or_none, Registry.origin?]

theorem returns_register {a : Unit} (h : Returns (Declaring.register name origin) s a t) :
    t.registry = (s.registry.register name origin).1 ∧
      t.registry.origins = s.registry.origins ++
        ([name].filter fun x => !s.registry.holds x).map (·, origin) ∧
      t.log = s.log ++ [name].filterMap fun x =>
        (s.registry.origin? x).map (Registry.clash x origin) := by
  cases returns_modify.mp h
  refine ⟨rfl, ?_⟩
  dsimp only
  unfold Registry.register Registry.holds
  cases ho : s.registry.origin? name with
  | none => simp [ho]
  | some earlier => simp [ho]

theorem registrations_of_nodup {a : Unit} (hnames : names.Nodup)
    (h : Returns (names.forM fun name => Declaring.register name origin) s a t) :
    t.registry.origins = s.registry.origins ++
        (names.filter fun name => !s.registry.holds name).map (·, origin) ∧
      t.log = s.log ++ names.filterMap fun name =>
        (s.registry.origin? name).map (Registry.clash name origin) := by
  induction names generalizing s with
  | nil =>
    obtain ⟨-, rfl⟩ := returns_pure.mp h
    simp
  | cons name names ih =>
    rw [List.nodup_cons] at hnames
    obtain ⟨_, u, hname, hrest⟩ := returns_bind.mp h
    obtain ⟨hregistry, horigins, hlog⟩ := returns_register hname
    -- the other names are as new as before
    have hkept : ∀ x ∈ names, u.registry.origin? x = s.registry.origin? x := by
      intro x hx
      rw [hregistry]
      exact Registry.origin?_register_of_ne _ fun he => hnames.1 (he ▸ hx)
    have hholds : ∀ x ∈ names, (!u.registry.holds x) = !s.registry.holds x := by
      intro x hx
      rw [Registry.holds, Registry.holds, hkept x hx]
    have hclashes : ∀ x ∈ names, (u.registry.origin? x).map (Registry.clash x origin) =
        (s.registry.origin? x).map (Registry.clash x origin) := fun x hx => by rw [hkept x hx]
    have hcons : name :: names = [name] ++ names := rfl
    obtain ⟨ihorigins, ihlog⟩ := ih hnames.2 hrest
    rw [ihorigins, ihlog, horigins, hlog, List.filter_congr hholds, List.filterMap_congr hclashes,
      hcons, List.filter_append, List.filterMap_append, List.map_append, List.append_assoc,
      List.append_assoc]
    exact ⟨rfl, rfl⟩

end Distinct

namespace Declaration

theorem declareAs_name (comment name : String) (t : TypeExpr) :
    (declareAs comment name t).name = name := by
  unfold declareAs
  split_ifs <;> rfl

theorem declaration_ok {name : String} {t : TypeExpr} {description : Value} {d : Statement}
    (h : declaration name t description = .ok d) :
    ∃ comment, (comment = "" ∨ Naming.docCommentOf description 0 = .ok comment) ∧
      d = declareAs comment name t := by
  unfold declaration at h
  split_ifs at h
  · exact ⟨"", .inl rfl, (pure_eq_ok.mp h).symm⟩
  · obtain ⟨comment, hcomment, h⟩ := bind_eq_ok.mp h
    exact ⟨comment, .inr hcomment, (pure_eq_ok.mp h).symm⟩

theorem declaration_name {name : String} {t : TypeExpr} {description : Value} {d : Statement}
    (h : declaration name t description = .ok d) : d.name = name := by
  obtain ⟨comment, -, rfl⟩ := declaration_ok h
  exact declareAs_name comment name t

/-- A schema is declared as an interface under its own description, or as an alias under the one
that it has where it stands, which a reference lacks. -/
theorem declareSchema_ok {name location : String} {schema : Value} {d : Statement}
    (h : declareSchema name schema location = .ok d) :
    (∃ label, ∃ es : Entries, ∃ t comment, schema = .map label es ∧ isObjectSchema schema = true ∧
      Schema.mappingType es location = .ok t ∧
      Naming.docCommentOf (es.get "description") 0 = .ok comment ∧
      d = interface (comment ++ if t.isEmptyShape then emptyInterfaceMarker else "") name t) ∨
    ∃ t comment, Schema.typeOf schema location = .ok t ∧
      Naming.docCommentOf (Schema.inlineDescription schema) 0 = .ok comment ∧
      d = typeAlias comment name t := by
  cases schema with
  | map label es =>
    rw [declareSchema] at h
    split_ifs at h with hobject
    · obtain ⟨t, ht, h⟩ := bind_eq_ok.mp h
      obtain ⟨comment, hcomment, h⟩ := bind_eq_ok.mp h
      exact .inl ⟨label, es, t, comment, rfl, hobject, ht, hcomment, (pure_eq_ok.mp h).symm⟩
    · obtain ⟨t, ht, h⟩ := bind_eq_ok.mp h
      obtain ⟨comment, hcomment, h⟩ := bind_eq_ok.mp h
      exact .inr ⟨t, comment, ht, hcomment, (pure_eq_ok.mp h).symm⟩
  | _ =>
    obtain ⟨t, ht, h⟩ := bind_eq_ok.mp h
    exact .inr ⟨t, "", ht, rfl, (pure_eq_ok.mp h).symm⟩

theorem declareSchema_name {name location : String} {schema : Value} {d : Statement}
    (h : declareSchema name schema location = .ok d) : d.name = name := by
  rcases declareSchema_ok h with ⟨-, -, t, comment, -, -, -, -, rfl⟩ | ⟨t, comment, -, -, rfl⟩
  · rfl
  · rfl

theorem declareSchemas_registers {schemas : Value} {s t : Session} {b : Block}
    (h : Returns (declareSchemas schemas) s b t) : Registers s b.names t := by
  rw [declareSchemas] at h
  split_ifs at h
  · obtain ⟨es, u, he, h⟩ := returns_bind.mp h
    obtain ⟨-, rfl⟩ := returns_lift.mp he
    obtain ⟨ds, u, hds, h⟩ := returns_bind.mp h
    obtain ⟨rfl, rfl⟩ := returns_pure.mp h
    have hmap := Registers.mapM (fun d : Statement => [d.name]) ?_ hds
    · rwa [← List.map_eq_flatMap] at hmap
    · rintro ⟨key, schema⟩ - s d t hd
      obtain ⟨name, -, hd⟩ := returns_lift_bind.mp hd
      obtain ⟨_, u, hreg, hd⟩ := returns_bind.mp hd
      obtain ⟨d', hdecl, hd⟩ := returns_lift_bind.mp hd
      obtain ⟨_, v, htell, hd⟩ := returns_bind.mp hd
      obtain ⟨rfl, rfl⟩ := returns_pure.mp hd
      rw [declareSchema_name hdecl]
      exact (Registers.register hreg).trans (.tell htell)
  · obtain ⟨rfl, rfl⟩ := returns_pure.mp h
    exact .refl s

theorem declareBodies_registers {part : BodySection} {bodies : Value} {s t : Session} {b : Block}
    (h : Returns (declareBodies part bodies) s b t) : Registers s b.names t := by
  rw [declareBodies] at h
  split_ifs at h
  · obtain ⟨es, u, he, h⟩ := returns_bind.mp h
    obtain ⟨-, rfl⟩ := returns_lift.mp he
    obtain ⟨ds, u, hds, h⟩ := returns_bind.mp h
    obtain ⟨rfl, rfl⟩ := returns_pure.mp h
    have hmap := Registers.mapM (fun d : Statement => [d.name]) ?_ hds
    · rwa [← List.map_eq_flatMap] at hmap
    · rintro ⟨key, body⟩ - s d t hd
      obtain ⟨name, -, hd⟩ := returns_lift_bind.mp hd
      obtain ⟨_, u, hreg, hd⟩ := returns_bind.mp hd
      obtain ⟨e, -, hd⟩ := returns_lift_bind.mp hd
      obtain ⟨hdecl, rfl⟩ := returns_lift.mp hd
      rw [declaration_name hdecl]
      exact .register hreg
  · obtain ⟨rfl, rfl⟩ := returns_pure.mp h
    exact .refl s

theorem componentBlocks_registers {components : Value} {s t : Session} {bs : List Block}
    (h : Returns (componentBlocks components) s bs t) :
    Registers s (bs.flatMap Block.names) t := by
  rw [componentBlocks] at h
  obtain ⟨es, -, h⟩ := returns_lift_bind.mp h
  obtain ⟨schemas, u, hs, h⟩ := returns_bind.mp h
  obtain ⟨bodies, v, hb, h⟩ := returns_bind.mp h
  obtain ⟨answers, w, ha, h⟩ := returns_bind.mp h
  obtain ⟨rfl, rfl⟩ := returns_pure.mp h
  have hall := ((declareSchemas_registers hs).trans (declareBodies_registers hb)).trans
    (declareBodies_registers ha)
  simpa using hall

end Declaration

end ApiBindings
