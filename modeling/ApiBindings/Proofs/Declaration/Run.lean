import ApiBindings.Declaration.Session
import ApiBindings.Proofs.Failure
import ApiBindings.Proofs.Success

/-!
Runs of computations that declare names or tell events: what their steps have returned on the way,
which step has failed, and in which state each step has left the run.
-/

namespace ApiBindings

variable {σ α β γ : Type} {s t : σ}

/-- From the state `s` the computation returns `a` and leaves the state `t`. -/
def Returns (x : ExceptT Fault (StateM σ) α) (s : σ) (a : α) (t : σ) : Prop :=
  x.run.run s = (.ok a, t)

theorem Returns.unique {x : ExceptT Fault (StateM σ) α} {a b : α} {u : σ} (h : Returns x s a t)
    (h' : Returns x s b u) : a = b ∧ t = u := by
  cases h.symm.trans h'
  exact ⟨rfl, rfl⟩

theorem returns_pure {a b : α} :
    Returns (pure a : ExceptT Fault (StateM σ) α) s b t ↔ a = b ∧ s = t := by
  constructor
  · intro h
    cases h
    exact ⟨rfl, rfl⟩
  · rintro ⟨rfl, rfl⟩
    rfl

theorem returns_bind {x : ExceptT Fault (StateM σ) α} {f : α → ExceptT Fault (StateM σ) β}
    {b : β} : Returns (x >>= f) s b t ↔ ∃ a u, Returns x s a u ∧ Returns (f a) u b t := by
  unfold Returns
  rw [ExceptT.run_bind, StateT.run_bind]
  obtain ⟨result, u⟩ := x.run.run s
  cases result with
  | error e =>
    constructor
    · intro h
      cases h
    · rintro ⟨a, v, h, -⟩
      cases h
  | ok a =>
    constructor
    · exact fun h => ⟨a, u, rfl, h⟩
    · rintro ⟨a, u, h, hf⟩
      cases h
      exact hf

theorem returns_lift {x : Except Fault α} {a : α} :
    Returns (liftM x : ExceptT Fault (StateM σ) α) s a t ↔ x = .ok a ∧ s = t := by
  constructor
  · intro h
    cases h
    exact ⟨rfl, rfl⟩
  · rintro ⟨rfl, rfl⟩
    rfl

theorem returns_lift_bind {x : Except Fault α} {f : α → ExceptT Fault (StateM σ) β} {b : β} :
    Returns (liftM x >>= f) s b t ↔ ∃ a, x = .ok a ∧ Returns (f a) s b t := by
  rw [returns_bind]
  constructor
  · rintro ⟨a, u, hx, h⟩
    obtain ⟨ha, rfl⟩ := returns_lift.mp hx
    exact ⟨a, ha, h⟩
  · rintro ⟨a, ha, h⟩
    exact ⟨a, s, returns_lift.mpr ⟨ha, rfl⟩, h⟩

theorem exists_returns_lift_bind {x : Except Fault α} {f : α → ExceptT Fault (StateM σ) β} {b : β}
    (h : ∃ a, x = .ok a ∧ ∃ t, Returns (f a) s b t) : ∃ t, Returns (liftM x >>= f) s b t := by
  obtain ⟨a, ha, t, ht⟩ := h
  exact ⟨t, returns_lift_bind.mpr ⟨a, ha, ht⟩⟩

theorem not_returns_throw {e : Fault} {a : α} :
    ¬ Returns (throw e : ExceptT Fault (StateM σ) α) s a t := by
  intro h
  cases h

theorem returns_get {u : σ} : Returns (get : ExceptT Fault (StateM σ) σ) s u t ↔ s = u ∧ s = t := by
  constructor
  · intro h
    cases h
    exact ⟨rfl, rfl⟩
  · rintro ⟨rfl, rfl⟩
    rfl

theorem returns_modify {f : σ → σ} {a : Unit} :
    Returns (modify f : ExceptT Fault (StateM σ) Unit) s a t ↔ f s = t := by
  constructor
  · intro h
    cases h
    rfl
  · rintro rfl
    rfl

theorem returns_mapM_nil {f : α → ExceptT Fault (StateM σ) β} {bs : List β} :
    Returns ([].mapM f) s bs t ↔ [] = bs ∧ s = t := by
  rw [List.mapM_nil, returns_pure]

theorem returns_mapM_cons {f : α → ExceptT Fault (StateM σ) β} {x : α} {xs : List α}
    {bs : List β} : Returns ((x :: xs).mapM f) s bs t ↔
      ∃ b u cs, Returns (f x) s b u ∧ Returns (xs.mapM f) u cs t ∧ b :: cs = bs := by
  rw [List.mapM_cons, returns_bind]
  simp only [returns_bind, returns_pure]
  grind

theorem length_of_returns_mapM {f : α → ExceptT Fault (StateM σ) β} {xs : List α} {bs : List β}
    (h : Returns (xs.mapM f) s bs t) : bs.length = xs.length := by
  induction xs generalizing s bs with
  | nil =>
    obtain ⟨rfl, -⟩ := returns_mapM_nil.mp h
    rfl
  | cons x xs ih =>
    obtain ⟨b, u, cs, -, hcs, rfl⟩ := returns_mapM_cons.mp h
    rw [List.length_cons, List.length_cons, ih hcs]

theorem mem_of_returns_mapM {f : α → ExceptT Fault (StateM σ) β} {xs : List α} {bs : List β}
    {b : β} (h : Returns (xs.mapM f) s bs t) (hb : b ∈ bs) :
    ∃ x ∈ xs, ∃ u v, Returns (f x) u b v := by
  induction xs generalizing s bs with
  | nil =>
    obtain ⟨rfl, -⟩ := returns_mapM_nil.mp h
    cases hb
  | cons x xs ih =>
    obtain ⟨c, u, cs, hc, hcs, rfl⟩ := returns_mapM_cons.mp h
    rcases List.mem_cons.mp hb with rfl | hb
    · exact ⟨x, List.mem_cons_self, s, u, hc⟩
    · obtain ⟨y, hy, hf⟩ := ih hcs hb
      exact ⟨y, List.mem_cons_of_mem x hy, hf⟩

theorem returns_mapM_map {f : α → ExceptT Fault (StateM σ) γ} {g : β → ExceptT Fault (StateM σ) γ}
    {k : α → β} {xs : List α} {bs : List γ}
    (hf : ∀ x s b t, Returns (f x) s b t → Returns (g (k x)) s b t)
    (h : Returns (xs.mapM f) s bs t) : Returns ((xs.map k).mapM g) s bs t := by
  induction xs generalizing s bs with
  | nil => exact h
  | cons x xs ih =>
    obtain ⟨b, u, cs, hb, hcs, rfl⟩ := returns_mapM_cons.mp h
    exact returns_mapM_cons.mpr ⟨b, u, cs, hf x s b u hb, ih hcs, rfl⟩

theorem returns_mapM_append {f : α → ExceptT Fault (StateM σ) β} {xs ys : List α} {u : σ}
    {bs cs : List β} (hx : Returns (xs.mapM f) s bs t) (hy : Returns (ys.mapM f) t cs u) :
    Returns ((xs ++ ys).mapM f) s (bs ++ cs) u := by
  rw [List.mapM_append]
  refine returns_bind.mpr ⟨bs, t, hx, returns_bind.mpr ⟨cs, u, hy, ?_⟩⟩
  exact returns_pure.mpr ⟨rfl, rfl⟩

theorem returns_mapM_flatten {f : α → ExceptT Fault (StateM σ) (List γ)}
    {g : β → ExceptT Fault (StateM σ) γ} {k : α → List β} {xs : List α} {bss : List (List γ)}
    (hf : ∀ x s bs t, Returns (f x) s bs t → Returns ((k x).mapM g) s bs t)
    (h : Returns (xs.mapM f) s bss t) : Returns ((xs.flatMap k).mapM g) s bss.flatten t := by
  induction xs generalizing s bss with
  | nil =>
    obtain ⟨rfl, rfl⟩ := returns_mapM_nil.mp h
    exact returns_mapM_nil.mpr ⟨rfl, rfl⟩
  | cons x xs ih =>
    obtain ⟨bs, u, css, hb, hcs, rfl⟩ := returns_mapM_cons.mp h
    rw [List.flatMap_cons, List.flatten_cons]
    exact returns_mapM_append (hf x s bs u hb) (ih hcs)

theorem forall₂_of_returns_mapM {f : α → ExceptT Fault (StateM σ) β} {xs : List α} {bs : List β}
    (h : Returns (xs.mapM f) s bs t) :
    List.Forall₂ (fun x b => ∃ u v, Returns (f x) u b v) xs bs := by
  induction xs generalizing s bs with
  | nil =>
    obtain ⟨rfl, -⟩ := returns_mapM_nil.mp h
    exact .nil
  | cons x xs ih =>
    obtain ⟨b, u, cs, hb, hcs, rfl⟩ := returns_mapM_cons.mp h
    exact .cons ⟨s, u, hb⟩ (ih hcs)

theorem returns_mapM_of_forall₂ {f : α → ExceptT Fault (StateM σ) β} {xs : List α} {bs : List β}
    (h : List.Forall₂ (fun x b => ∀ s, ∃ t, Returns (f x) s b t) xs bs) (s : σ) :
    ∃ t, Returns (xs.mapM f) s bs t := by
  induction h generalizing s with
  | nil => exact ⟨s, returns_mapM_nil.mpr ⟨rfl, rfl⟩⟩
  | cons hx _ ih =>
    obtain ⟨u, hu⟩ := hx s
    obtain ⟨t, ht⟩ := ih u
    exact ⟨t, returns_mapM_cons.mpr ⟨_, u, _, hu, ht, rfl⟩⟩

/-- What each step of a fold keeps, the fold keeps. -/
theorem returns_foldlM {I : β → Prop} {f : β → α → ExceptT Fault (StateM σ) β} {xs : List α}
    {b c : β} (hf : ∀ b, ∀ x ∈ xs, ∀ s c t, I b → Returns (f b x) s c t → I c) (hb : I b)
    (h : Returns (xs.foldlM f b) s c t) : I c := by
  induction xs generalizing b s with
  | nil =>
    obtain ⟨rfl, -⟩ := returns_pure.mp h
    exact hb
  | cons x xs ih =>
    rw [List.foldlM_cons] at h
    obtain ⟨d, u, hx, h⟩ := returns_bind.mp h
    refine ih (fun b y hy => hf b y (List.mem_cons_of_mem x hy)) ?_ h
    exact hf b x List.mem_cons_self s d u hb hx

theorem returns_mapM_lift {f : α → Except Fault β} {xs : List α} {bs : List β} :
    Returns (xs.mapM fun x => (liftM (f x) : ExceptT Fault (StateM σ) β)) s bs t ↔
      xs.mapM f = .ok bs ∧ s = t := by
  induction xs generalizing bs with
  | nil => rw [returns_mapM_nil, List.mapM_nil, pure_eq_ok]
  | cons x xs ih =>
    rw [returns_mapM_cons]
    simp only [returns_lift, List.mapM_cons, bind_eq_ok, pure_eq_ok]
    grind

theorem returns_telling {x : Telling α} {s t : Session} {a : α} :
    Returns (Declaring.telling x) s a t ↔
      ∃ log, Returns x s.log a log ∧ { s with log := log } = t := by
  have hrun : (Declaring.telling x).run.run s =
      ((x.run.run s.log).1, { s with log := (x.run.run s.log).2 }) := rfl
  unfold Returns
  rw [hrun, Prod.mk.injEq]
  constructor
  · rintro ⟨ha, rfl⟩
    exact ⟨_, Prod.ext ha rfl, rfl⟩
  · rintro ⟨log, h, rfl⟩
    rw [h]
    exact ⟨rfl, rfl⟩

/-- From the state `s` the computation fails with `e` and leaves the state `t`. -/
def Fails (x : ExceptT Fault (StateM σ) α) (s : σ) (e : Fault) (t : σ) : Prop :=
  x.run.run s = (.error e, t)

variable {e : Fault}

theorem not_fails_pure {a : α} : ¬ Fails (pure a : ExceptT Fault (StateM σ) α) s e t := by
  intro h
  cases h

theorem not_fails_get : ¬ Fails (get : ExceptT Fault (StateM σ) σ) s e t := by
  intro h
  cases h

theorem not_fails_modify {f : σ → σ} :
    ¬ Fails (modify f : ExceptT Fault (StateM σ) Unit) s e t := by
  intro h
  cases h

theorem fails_throw {f : Fault} :
    Fails (throw f : ExceptT Fault (StateM σ) α) s e t ↔ f = e ∧ s = t := by
  constructor
  · intro h
    cases h
    exact ⟨rfl, rfl⟩
  · rintro ⟨rfl, rfl⟩
    rfl

theorem fails_lift {x : Except Fault α} :
    Fails (liftM x : ExceptT Fault (StateM σ) α) s e t ↔ x = .error e ∧ s = t := by
  constructor
  · intro h
    cases x with
    | error f =>
      cases h
      exact ⟨rfl, rfl⟩
    | ok a => cases h
  · rintro ⟨rfl, rfl⟩
    rfl

theorem fails_bind {x : ExceptT Fault (StateM σ) α} {f : α → ExceptT Fault (StateM σ) β} :
    Fails (x >>= f) s e t ↔ Fails x s e t ∨ ∃ a u, Returns x s a u ∧ Fails (f a) u e t := by
  unfold Fails Returns
  rw [ExceptT.run_bind, StateT.run_bind]
  obtain ⟨result, u⟩ := x.run.run s
  cases result with
  | error e =>
    constructor
    · intro h
      cases h
      exact .inl rfl
    · rintro (h | ⟨a, v, h, -⟩)
      · cases h
        rfl
      · cases h
  | ok a =>
    constructor
    · exact fun h => .inr ⟨a, u, rfl, h⟩
    · rintro (h | ⟨a, u, h, hf⟩)
      · cases h
      · cases h
        exact hf

theorem fails_telling {x : Telling α} {s t : Session} :
    Fails (Declaring.telling x) s e t ↔
      ∃ log, Fails x s.log e log ∧ { s with log := log } = t := by
  have hrun : (Declaring.telling x).run.run s =
      ((x.run.run s.log).1, { s with log := (x.run.run s.log).2 }) := rfl
  unfold Fails
  rw [hrun, Prod.mk.injEq]
  constructor
  · rintro ⟨he, rfl⟩
    exact ⟨_, Prod.ext he rfl, rfl⟩
  · rintro ⟨log, h, rfl⟩
    rw [h]
    exact ⟨rfl, rfl⟩

/-- Every fault that a run of the computation ends with satisfies `P`. -/
def FailsIn (P : Fault → Prop) (x : ExceptT Fault (StateM σ) α) : Prop :=
  ∀ s e t, Fails x s e t → P e

variable {P : Fault → Prop}

theorem failsIn_pure (a : α) : FailsIn P (pure a : ExceptT Fault (StateM σ) α) :=
  fun _ _ _ h => absurd h not_fails_pure

theorem failsIn_modify (f : σ → σ) : FailsIn P (modify f : ExceptT Fault (StateM σ) Unit) :=
  fun _ _ _ h => absurd h not_fails_modify

theorem failsIn_throw {f : Fault} (h : P f) :
    FailsIn P (throw f : ExceptT Fault (StateM σ) α) := by
  intro s e t he
  obtain ⟨rfl, -⟩ := fails_throw.mp he
  exact h

theorem failsIn_lift {x : Except Fault α} (h : FaultsIn P x) :
    FailsIn P (liftM x : ExceptT Fault (StateM σ) α) :=
  fun _ e _ he => h e (fails_lift.mp he).1

/-- A second step has to be looked at for the results of the first step only. -/
theorem failsIn_bind {x : ExceptT Fault (StateM σ) α} {f : α → ExceptT Fault (StateM σ) β}
    (hx : FailsIn P x) (hf : ∀ a, (∃ s t, Returns x s a t) → FailsIn P (f a)) :
    FailsIn P (x >>= f) := by
  intro s e t h
  rcases fails_bind.mp h with h | ⟨a, u, ha, h⟩
  · exact hx s e t h
  · exact hf a ⟨s, u, ha⟩ u e t h

theorem failsIn_lift_bind {x : Except Fault α} {f : α → ExceptT Fault (StateM σ) β}
    (hx : FaultsIn P x) (hf : ∀ a, x = .ok a → FailsIn P (f a)) :
    FailsIn P (liftM x >>= f) :=
  failsIn_bind (failsIn_lift hx) fun a ⟨_, _, ha⟩ => hf a (returns_lift.mp ha).1

theorem failsIn_mapM {f : α → ExceptT Fault (StateM σ) β} {xs : List α}
    (hf : ∀ x ∈ xs, FailsIn P (f x)) : FailsIn P (xs.mapM f) := by
  induction xs with
  | nil => exact failsIn_pure []
  | cons x xs ih =>
    rw [List.mapM_cons]
    refine failsIn_bind (hf x List.mem_cons_self) fun b _ => ?_
    exact failsIn_bind (ih fun y hy => hf y (List.mem_cons_of_mem x hy)) fun bs _ => failsIn_pure _

theorem failsIn_foldlM {f : β → α → ExceptT Fault (StateM σ) β} {xs : List α}
    (hf : ∀ b, ∀ x ∈ xs, FailsIn P (f b x)) (b : β) : FailsIn P (xs.foldlM f b) := by
  induction xs generalizing b with
  | nil => exact failsIn_pure b
  | cons x xs ih =>
    rw [List.foldlM_cons]
    refine failsIn_bind (hf b x List.mem_cons_self) fun a _ => ?_
    exact ih (fun b y hy => hf b y (List.mem_cons_of_mem x hy)) a

end ApiBindings
