import ApiBindings.Operation.Parameter
import ApiBindings.Proofs.Declaration.Run
import ApiBindings.Proofs.Document.Throughout

/-!
Where the parameters of an operation come from. Main statement: what holds in all of the parameter
lists and of the shared parameters holds in all of every parameter that is read.
-/

namespace ApiBindings.Operation

open Value (Lasting)

variable {S : Scalar → Prop} {Q : Entries → Prop} {components v : Value} {s t : Log}

theorem lookUpParameter_throughout (hlasting : Lasting S Q) {item : Value}
    (hcomponents : (components.members.get "parameters").Throughout S Q)
    (hitem : item.Throughout S Q) (h : Returns (lookUpParameter components item) s (some v) t) :
    v.Throughout S Q := by
  unfold lookUpParameter at h
  split at h
  · split at h
    · obtain ⟨he, -⟩ := returns_pure.mp h
      exact Option.some.inj he ▸ hitem
    · obtain ⟨ref, -, h⟩ := returns_lift_bind.mp h
      split at h
      · exact absurd h not_returns_throw
      · rename_i path _
        obtain ⟨es, hes, h⟩ := returns_lift_bind.mp h
        obtain ⟨shared, hshared, h⟩ := returns_lift_bind.mp h
        cases Value.entriesOrNone_ok hes
        cases Value.entriesOrNone_ok hshared
        have hfound := (hcomponents.members hlasting).get hlasting (Pointer.unescape path)
        split at h
        · obtain ⟨_, u, -, h⟩ := returns_bind.mp h
          cases (returns_pure.mp h).1
        · obtain ⟨he, -⟩ := returns_pure.mp h
          exact Option.some.inj he ▸ hfound
  · cases (returns_pure.mp h).1

theorem mem_mergeParameter {p q : Parameter} {ps : List Parameter}
    (h : q ∈ mergeParameter p ps) : q = p ∨ q ∈ ps := by
  induction ps with
  | nil => exact .inl (List.mem_singleton.mp h)
  | cons r ps ih =>
    rw [mergeParameter] at h
    split_ifs at h
    · exact (List.mem_cons.mp h).imp_right (List.mem_cons_of_mem r)
    · rcases List.mem_cons.mp h with rfl | h
      · exact .inr List.mem_cons_self
      · exact (ih h).imp_right (List.mem_cons_of_mem r)

theorem parameterItems_throughout (hlasting : Lasting S Q) (hv : v.Throughout S Q)
    {items : List Value} (h : parameterItems v = .ok items) :
    ∀ item ∈ items, item.Throughout S Q := by
  unfold parameterItems at h
  split_ifs at h
  · exact hv.elements hlasting h
  · cases h
    exact fun _ he => nomatch he

theorem mergeParameters_throughout (hlasting : Lasting S Q) {ofRoute ofOperation : Value}
    {ps : List Parameter} (hcomponents : (components.members.get "parameters").Throughout S Q)
    (hroute : ofRoute.Throughout S Q) (hoperation : ofOperation.Throughout S Q)
    (h : Returns (mergeParameters components ofRoute ofOperation) s ps t) :
    ∀ p ∈ ps, p.entries.Throughout S Q := by
  rw [mergeParameters] at h
  obtain ⟨xs, hxs, h⟩ := returns_lift_bind.mp h
  obtain ⟨ys, hys, h⟩ := returns_lift_bind.mp h
  have hitems : ∀ item ∈ xs ++ ys, item.Throughout S Q := by
    intro item hitem
    rcases List.mem_append.mp hitem with hitem | hitem
    · exact parameterItems_throughout hlasting hroute hxs item hitem
    · exact parameterItems_throughout hlasting hoperation hys item hitem
  -- the invariant of the merge: all that is in the list satisfies the conditions
  refine returns_foldlM (I := fun ps : List Parameter => ∀ p ∈ ps, p.entries.Throughout S Q)
    (fun merged item hitem s next t hmerged hnext => ?_) (List.forall_mem_nil _) h
  obtain ⟨found, u, hfound, hnext⟩ := returns_bind.mp hnext
  cases found with
  | none =>
    obtain ⟨rfl, -⟩ := returns_pure.mp hnext
    exact hmerged
  | some found =>
    obtain ⟨es, hes, hnext⟩ := returns_lift_bind.mp hnext
    obtain ⟨p, hp, hnext⟩ := returns_lift_bind.mp hnext
    obtain ⟨rfl, -⟩ := returns_pure.mp hnext
    have hfields := (lookUpParameter_throughout hlasting hcomponents (hitems item hitem)
      hfound).members hlasting
    rw [← Value.entries_ok hes] at hfields
    have hentries : p.entries = es := by
      obtain ⟨name, -, hp⟩ := bind_eq_ok.mp hp
      obtain ⟨position, -, hp⟩ := bind_eq_ok.mp hp
      rw [← pure_eq_ok.mp hp]
    intro q hq
    rcases mem_mergeParameter hq with rfl | hq
    · rw [hentries]
      exact hfields
    · exact hmerged q hq

end ApiBindings.Operation
