import RdmaMigration.Lib.Run

/-! # Forward simulation

A machine simulates another one along a function on states when each of its steps
is a step of the other or leaves the other where it is. Which one is decided by
`visible`: the step of the other machine that an action stands for, if any, in the
state it is taken from. The correspondence is only asked for where an invariant
holds. Where no function on states will do, a relation takes its place, and a step is
answered by a run.
-/

namespace RdmaMigration.Lib

variable {σ α τ β : Type*}

/-- The steps of the other machine that a run stands for. -/
def observed (step : σ → α → Option σ) (visible : σ → α → Option β) (s : σ) : List α → List β
  | [] => []
  | a :: as =>
      match step s a with
      | none => []
      | some t => (visible s a).toList ++ observed step visible t as

theorem observed_cons {step : σ → α → Option σ} {visible : σ → α → Option β} {s t : σ} {a : α}
    (h : step s a = some t) (as : List α) :
    observed step visible s (a :: as) = (visible s a).toList ++ observed step visible t as := by
  rw [observed, h]

theorem observed_filterMap {step : σ → α → Option σ} {visible : α → Option β} {s t : σ}
    {as : List α} (h : run step s as = some t) :
    observed step (fun _ => visible) s as = as.filterMap visible := by
  induction as generalizing s with
  | nil => rfl
  | cons a as ih =>
      obtain ⟨u, hu, hrest⟩ := run_cons_some h
      rw [observed_cons hu, ih hrest]
      cases hv : visible a with
      | none => rw [List.filterMap_cons_none hv]; rfl
      | some b => rw [List.filterMap_cons_some hv]; rfl

/-- `view` turns the runs of `step` that start in `Inv` into runs of `spec`. -/
structure Simulation (step : σ → α → Option σ) (spec : τ → β → Option τ) (Inv : σ → Prop)
    (view : σ → τ) (visible : σ → α → Option β) : Prop where
  keeps : ∀ {s t : σ} {a : α}, Inv s → step s a = some t → Inv t
  hidden : ∀ {s t : σ} {a : α}, Inv s → step s a = some t → visible s a = none →
    view t = view s
  shown : ∀ {s t : σ} {a : α} {b : β}, Inv s → step s a = some t → visible s a = some b →
    spec (view s) b = some (view t)

namespace Simulation

variable {step : σ → α → Option σ} {spec : τ → β → Option τ} {Inv : σ → Prop} {view : σ → τ}
  {visible : σ → α → Option β}

theorem run_keeps (h : Simulation step spec Inv view visible) {s t : σ} {as : List α}
    (hs : Inv s) (hrun : run step s as = some t) : Inv t := by
  induction as generalizing s with
  | nil =>
      cases hrun
      exact hs
  | cons a as ih =>
      obtain ⟨u, hu, hrest⟩ := run_cons_some hrun
      exact ih (h.keeps hs hu) hrest

theorem run_observed (h : Simulation step spec Inv view visible) {s t : σ} {as : List α}
    (hs : Inv s) (hrun : run step s as = some t) :
    run spec (view s) (observed step visible s as) = some (view t) := by
  induction as generalizing s with
  | nil =>
      cases hrun
      rfl
  | cons a as ih =>
      obtain ⟨u, hu, hrest⟩ := run_cons_some hrun
      have htail := ih (h.keeps hs hu) hrest
      rw [observed_cons hu]
      cases hv : visible s a with
      | none =>
          rw [← h.hidden hs hu hv]
          exact htail
      | some b =>
          rw [Option.toList_some, List.singleton_append, run_cons, h.shown hs hu hv]
          exact htail

end Simulation

/-- What one machine reaches, the other reaches up to the relation, if it can answer every
permitted step. -/
theorem Reaches.simulated {step : σ → α → Option σ} {ok : σ → α → Prop}
    {spec : τ → β → Option τ} {ok' : τ → β → Prop} {R : σ → τ → Prop}
    (hstep : ∀ s a s' t, R s t → ok s a → step s a = some s' →
      ∃ t', Reaches spec ok' t t' ∧ R s' t')
    {s s' : σ} {t : τ} (h : R s t) (hreach : Reaches step ok s s') :
    ∃ t', Reaches spec ok' t t' ∧ R s' t' := by
  refine @Reaches.invariant _ _ step ok (fun s' => ∃ t', Reaches spec ok' t t' ∧ R s' t')
    (fun u a v hu hok hv => ?_) s s' ⟨t, Reaches.refl _ _ t, h⟩ hreach
  obtain ⟨w, hw, hR⟩ := hu
  obtain ⟨w', hw', hR'⟩ := hstep u a v w hR hok hv
  exact ⟨w', hw.trans hw', hR'⟩

end RdmaMigration.Lib
