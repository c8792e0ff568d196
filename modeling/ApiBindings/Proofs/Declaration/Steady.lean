import ApiBindings.Proofs.Declaration.Run

/-!
Computations that only tell events, all on one topic. Main statement: what such a computation
returns, and what it tells, does not depend on what was told before.
-/

namespace ApiBindings

variable {α β : Type}

/-- From every log the computation has one outcome and adds the same events, all on the topic. -/
def Steady (topic : Topic) (x : Telling α) : Prop :=
  ∃ outcome events, (∀ e ∈ events, e.topic = topic) ∧
    ∀ log, x.run.run log = (outcome, log ++ events)

namespace Steady

variable {topic : Topic} {x : Telling α} {s s' t t' : Log} {a b : α}

theorem told (hx : Steady topic x) (h : Returns x s a t) :
    ∃ events, t = s ++ events ∧ ∀ e ∈ events, e.topic = topic := by
  obtain ⟨outcome, events, htopic, hrun⟩ := hx
  cases (hrun s).symm.trans h
  exact ⟨events, rfl, htopic⟩

theorem kept (hx : Steady topic x) (h : Returns x s a t) : ∀ e ∈ s, e ∈ t := by
  obtain ⟨events, rfl, -⟩ := hx.told h
  exact fun e he => List.mem_append_left events he

theorem eq_of_returns (hx : Steady topic x) (h : Returns x s a t) (h' : Returns x s' b t') :
    a = b := by
  obtain ⟨outcome, events, -, hrun⟩ := hx
  cases (hrun s).symm.trans h
  cases (hrun s').symm.trans h'
  rfl

theorem pure (a : α) : Steady topic (pure a) :=
  ⟨.ok a, [], List.forall_mem_nil _, fun log => by rw [List.append_nil]; rfl⟩

theorem throw (e : Fault) : Steady topic (throw e : Telling α) :=
  ⟨.error e, [], List.forall_mem_nil _, fun log => by rw [List.append_nil]; rfl⟩

theorem lift (x : Except Fault α) : Steady topic (liftM x : Telling α) :=
  ⟨x, [], List.forall_mem_nil _, fun log => by rw [List.append_nil]; cases x <;> rfl⟩

theorem tell {event : Event} (h : event.topic = topic) : Steady topic (Telling.tell event) :=
  ⟨.ok (), [event], by simpa using h, fun _ => rfl⟩

theorem bind {f : α → Telling β} (hx : Steady topic x) (hf : ∀ a, Steady topic (f a)) :
    Steady topic (x >>= f) := by
  obtain ⟨outcome, events, htopic, hrun⟩ := hx
  cases outcome with
  | error e =>
    refine ⟨.error e, events, htopic, fun log => ?_⟩
    rw [ExceptT.run_bind, StateT.run_bind, hrun]
    rfl
  | ok a =>
    obtain ⟨outcome', events', htopic', hrun'⟩ := hf a
    refine ⟨outcome', events ++ events', fun e he => ?_, fun log => ?_⟩
    · exact (List.mem_append.mp he).elim (htopic e) (htopic' e)
    · rw [ExceptT.run_bind, StateT.run_bind, hrun, ← List.append_assoc]
      exact hrun' (log ++ events)

theorem mapM {f : α → Telling β} {xs : List α} (hf : ∀ x ∈ xs, Steady topic (f x)) :
    Steady topic (xs.mapM f) := by
  induction xs with
  | nil => exact pure []
  | cons x xs ih =>
    rw [List.mapM_cons]
    refine bind (hf x List.mem_cons_self) fun b => ?_
    exact bind (ih fun y hy => hf y (List.mem_cons_of_mem x hy)) fun bs => pure _

theorem foldlM {f : β → α → Telling β} (xs : List α) (hf : ∀ b x, Steady topic (f b x))
    (b : β) : Steady topic (xs.foldlM f b) := by
  induction xs generalizing b with
  | nil => exact pure b
  | cons x xs ih =>
    rw [List.foldlM_cons]
    exact bind (hf b x) ih

end Steady

end ApiBindings
