import ApiBindings.Proofs.Declaration.Run

/-!
Two computations side by side. Main statement: parts that run alike can be put together, so that
the wholes run alike.
-/

namespace ApiBindings

variable {σ α β γ δ : Type}

section Map

variable {m : Type → Type} [Monad m] [LawfulMonad m]

theorem mapM_map_result (f : α → m β) (g : β → γ) (xs : List α) :
    xs.mapM (fun x => g <$> f x) = List.map g <$> xs.mapM f := by
  induction xs with
  | nil => simp
  | cons x xs ih => simp [ih]

theorem foldlM_map_state {f : α → γ → m α} {g : β → γ → m β} {k : α → β}
    (h : ∀ a x, g (k a) x = k <$> f a x) (xs : List γ) (a : α) :
    xs.foldlM g (k a) = k <$> xs.foldlM f a := by
  induction xs generalizing a with
  | nil => simp
  | cons x xs ih => simp [ih, h]

end Map

/-- From every state the computations fail in the same way or return related values, and leave the
same state. -/
def Alike (R : α → β → Prop) (x : ExceptT Fault (StateM σ) α) (y : ExceptT Fault (StateM σ) β) :
    Prop :=
  ∀ s, (∃ e t, Fails x s e t ∧ Fails y s e t) ∨
    ∃ a b t, Returns x s a t ∧ Returns y s b t ∧ R a b

theorem fails_or_returns (x : ExceptT Fault (StateM σ) α) (s : σ) :
    (∃ e t, Fails x s e t) ∨ ∃ a t, Returns x s a t := by
  unfold Fails Returns
  obtain ⟨e | a, t⟩ := x.run.run s
  · exact .inl ⟨e, t, rfl⟩
  · exact .inr ⟨a, t, rfl⟩

namespace Alike

variable {R : α → β → Prop} {S : γ → δ → Prop} {T : α → α → Prop}

theorem pure {a : α} {b : β} (h : R a b) :
    Alike R (pure a : ExceptT Fault (StateM σ) α) (pure b) :=
  fun s => .inr ⟨a, b, s, rfl, rfl, h⟩

theorem throw (e : Fault) :
    Alike R (throw e : ExceptT Fault (StateM σ) α) (throw e : ExceptT Fault (StateM σ) β) :=
  fun s => .inl ⟨e, s, rfl, rfl⟩

theorem mono {x : ExceptT Fault (StateM σ) α} {y : ExceptT Fault (StateM σ) β}
    {R' : α → β → Prop} (hR : ∀ a b, R a b → R' a b) (h : Alike R x y) : Alike R' x y :=
  fun s => (h s).imp_right fun ⟨a, b, t, hx, hy, hab⟩ => ⟨a, b, t, hx, hy, hR a b hab⟩

theorem of_map {x : ExceptT Fault (StateM σ) α} {y : ExceptT Fault (StateM σ) β} {f : α → β}
    (h : y = f <$> x) (hf : ∀ s a t, Returns x s a t → R a (f a)) : Alike R x y := by
  intro s
  rw [h, ← bind_pure_comp]
  rcases fails_or_returns x s with ⟨e, t, hx⟩ | ⟨a, t, hx⟩
  · exact .inl ⟨e, t, hx, fails_bind.mpr (.inl hx)⟩
  · refine .inr ⟨a, f a, t, hx, returns_bind.mpr ⟨a, t, hx, ?_⟩, hf s a t hx⟩
    exact returns_pure.mpr ⟨rfl, rfl⟩

theorem refl (h : ∀ a, T a a) (x : ExceptT Fault (StateM σ) α) : Alike T x x := by
  intro s
  rcases fails_or_returns x s with ⟨e, t, hx⟩ | ⟨a, t, hx⟩
  · exact .inl ⟨e, t, hx, hx⟩
  · exact .inr ⟨a, a, t, hx, hx, h a⟩

theorem telling {x : Telling α} {y : Telling β} (h : Alike R x y) :
    Alike R (Declaring.telling x) (Declaring.telling y) := by
  intro s
  rcases h s.log with ⟨e, log, hx, hy⟩ | ⟨a, b, log, hx, hy, hab⟩
  · exact .inl ⟨e, _, fails_telling.mpr ⟨log, hx, rfl⟩, fails_telling.mpr ⟨log, hy, rfl⟩⟩
  · exact .inr ⟨a, b, _, returns_telling.mpr ⟨log, hx, rfl⟩, returns_telling.mpr ⟨log, hy, rfl⟩,
      hab⟩

theorem bind {x : ExceptT Fault (StateM σ) α} {y : ExceptT Fault (StateM σ) β}
    {f : α → ExceptT Fault (StateM σ) γ} {g : β → ExceptT Fault (StateM σ) δ}
    (h : Alike R x y) (hfg : ∀ a b, R a b → Alike S (f a) (g b)) :
    Alike S (x >>= f) (y >>= g) := by
  intro s
  rcases h s with ⟨e, t, hx, hy⟩ | ⟨a, b, u, hx, hy, hab⟩
  · exact .inl ⟨e, t, fails_bind.mpr (.inl hx), fails_bind.mpr (.inl hy)⟩
  rcases hfg a b hab u with ⟨e, t, hf, hg⟩ | ⟨c, d, t, hf, hg, hcd⟩
  · exact .inl ⟨e, t, fails_bind.mpr (.inr ⟨a, u, hx, hf⟩), fails_bind.mpr (.inr ⟨b, u, hy, hg⟩)⟩
  · exact .inr ⟨c, d, t, returns_bind.mpr ⟨a, u, hx, hf⟩, returns_bind.mpr ⟨b, u, hy, hg⟩, hcd⟩

theorem after {x : ExceptT Fault (StateM σ) α} {f : α → ExceptT Fault (StateM σ) γ}
    {g : α → ExceptT Fault (StateM σ) δ}
    (hfg : ∀ s a t, Returns x s a t → Alike S (f a) (g a)) : Alike S (x >>= f) (x >>= g) := by
  have hx : Alike (fun a b => a = b ∧ ∃ s t, Returns x s a t) x x := by
    intro s
    rcases fails_or_returns x s with ⟨e, t, h⟩ | ⟨a, t, h⟩
    · exact .inl ⟨e, t, h, h⟩
    · exact .inr ⟨a, a, t, h, h, rfl, s, t, h⟩
  refine bind hx fun a b ⟨hab, s, t, h⟩ => ?_
  cases hab
  exact hfg s a t h

theorem mapM {xs : List γ} {f : γ → ExceptT Fault (StateM σ) α}
    {g : γ → ExceptT Fault (StateM σ) β} (h : ∀ x ∈ xs, Alike R (f x) (g x)) :
    Alike (List.Forall₂ R) (xs.mapM f) (xs.mapM g) := by
  induction xs with
  | nil => exact pure .nil
  | cons x xs ih =>
    rw [List.mapM_cons, List.mapM_cons]
    refine bind (h x List.mem_cons_self) fun a b hab => ?_
    refine bind (ih fun y hy => h y (List.mem_cons_of_mem x hy)) fun as bs hbs => ?_
    exact pure (.cons hab hbs)

theorem foldlM {k : γ → δ} {f : α → γ → ExceptT Fault (StateM σ) α}
    {g : β → δ → ExceptT Fault (StateM σ) β} {xs : List γ} {a : α} {b : β}
    (h : ∀ a b, ∀ x ∈ xs, R a b → Alike R (f a x) (g b (k x))) (hab : R a b) :
    Alike R (xs.foldlM f a) ((xs.map k).foldlM g b) := by
  induction xs generalizing a b with
  | nil => exact pure hab
  | cons x xs ih =>
    rw [List.map_cons, List.foldlM_cons, List.foldlM_cons]
    refine bind (h a b x List.mem_cons_self hab) fun c d hcd => ?_
    exact ih (fun a b y hy => h a b y (List.mem_cons_of_mem x hy)) hcd

end Alike

end ApiBindings
