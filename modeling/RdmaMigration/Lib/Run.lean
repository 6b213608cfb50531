import Mathlib.Data.List.Basic

/-! # Runs of a partial step function

A machine is a step function `σ → α → Option σ`: the action carries every choice
of the scheduler and of the environment, and `none` means that the action is not
possible in the state. A run is a list of actions. Conditions on the steps of a
run are checked in the state each step is taken from (`Along`), so that a law
that needs a condition can name it without changing the machine.
-/

namespace RdmaMigration.Lib

variable {σ α τ : Type*}

/-- The state after the whole list of actions, if every one was possible. -/
def run (step : σ → α → Option σ) (s : σ) : List α → Option σ
  | [] => some s
  | a :: as => (step s a).bind fun t => run step t as

/-- Every step of the run meets `ok` in the state it is taken from. -/
def Along (step : σ → α → Option σ) (ok : σ → α → Prop) (s : σ) : List α → Prop
  | [] => True
  | a :: as => ok s a ∧ ∀ t, step s a = some t → Along step ok t as

/-- `t` is reached from `s` by steps that all meet `ok`. -/
def Reaches (step : σ → α → Option σ) (ok : σ → α → Prop) (s t : σ) : Prop :=
  ∃ as, Along step ok s as ∧ run step s as = some t

@[simp] theorem run_nil (step : σ → α → Option σ) (s : σ) : run step s [] = some s := rfl

theorem run_cons (step : σ → α → Option σ) (s : σ) (a : α) (as : List α) :
    run step s (a :: as) = (step s a).bind fun t => run step t as := rfl

theorem run_cons_some {step : σ → α → Option σ} {s t : σ} {a : α} {as : List α}
    (h : run step s (a :: as) = some t) :
    ∃ u, step s a = some u ∧ run step u as = some t := by
  rw [run_cons] at h
  exact Option.bind_eq_some_iff.mp h

theorem run_append (step : σ → α → Option σ) (s : σ) (as bs : List α) :
    run step s (as ++ bs) = (run step s as).bind fun t => run step t bs := by
  induction as generalizing s with
  | nil => rfl
  | cons a as ih =>
      rw [List.cons_append, run_cons, run_cons]
      cases step s a with
      | none => rfl
      | some t => simpa using ih t

theorem along_append {step : σ → α → Option σ} {ok : σ → α → Prop} {s t : σ}
    {as bs : List α} (ha : Along step ok s as) (hr : run step s as = some t)
    (hb : Along step ok t bs) : Along step ok s (as ++ bs) := by
  induction as generalizing s with
  | nil =>
      cases hr
      exact hb
  | cons a as ih =>
      refine ⟨ha.1, ?_⟩
      intro u hu
      obtain ⟨u', hu', hrest⟩ := run_cons_some hr
      have heq : u' = u := Option.some.inj (hu'.symm.trans hu)
      subst heq
      exact ih (ha.2 u' hu) hrest

theorem Reaches.refl (step : σ → α → Option σ) (ok : σ → α → Prop) (s : σ) :
    Reaches step ok s s := ⟨[], trivial, rfl⟩

theorem Reaches.snoc {step : σ → α → Option σ} {ok : σ → α → Prop} {s t u : σ} {a : α}
    (h : Reaches step ok s t) (hok : ok t a) (hstep : step t a = some u) :
    Reaches step ok s u := by
  obtain ⟨as, halong, hrun⟩ := h
  refine ⟨as ++ [a], along_append halong hrun ⟨hok, fun _ _ => trivial⟩, ?_⟩
  rw [run_append, hrun]
  simp [run_cons, hstep]

theorem Reaches.trans {step : σ → α → Option σ} {ok : σ → α → Prop} {s t u : σ}
    (h : Reaches step ok s t) (h' : Reaches step ok t u) : Reaches step ok s u := by
  obtain ⟨as, halong, hrun⟩ := h
  obtain ⟨bs, halong', hrun'⟩ := h'
  refine ⟨as ++ bs, along_append halong hrun halong', ?_⟩
  rw [run_append, hrun]
  exact hrun'

/-- The induction of every safety argument: what holds at the start and is kept
by each permitted step holds in every state reached. -/
theorem Reaches.invariant {step : σ → α → Option σ} {ok : σ → α → Prop} {Inv : σ → Prop}
    (hstep : ∀ s a t, Inv s → ok s a → step s a = some t → Inv t) {s t : σ}
    (hs : Inv s) (h : Reaches step ok s t) : Inv t := by
  obtain ⟨as, halong, hrun⟩ := h
  induction as generalizing s with
  | nil =>
      cases hrun
      exact hs
  | cons a as ih =>
      obtain ⟨u, hu, hrest⟩ := run_cons_some hrun
      exact ih (hstep s a u hs halong.1 hu) (halong.2 u hu) hrest

theorem Reaches.mono {step : σ → α → Option σ} {ok ok' : σ → α → Prop}
    (hok : ∀ s a, ok s a → ok' s a) {s t : σ} (h : Reaches step ok s t) :
    Reaches step ok' s t := by
  obtain ⟨as, halong, hrun⟩ := h
  refine ⟨as, ?_, hrun⟩
  clear hrun
  induction as generalizing s with
  | nil => trivial
  | cons a as ih => exact ⟨hok s a halong.1, fun u hu => ih (halong.2 u hu)⟩

def anyAction (_ : σ) (_ : α) : Prop := True

theorem reaches_of_run {step : σ → α → Option σ} {s t : σ} {as : List α}
    (h : run step s as = some t) : Reaches step anyAction s t := by
  refine ⟨as, ?_, h⟩
  clear h
  induction as generalizing s with
  | nil => trivial
  | cons a as ih => exact ⟨trivial, fun u _ => ih⟩

theorem reaches_of_map_run {β : Type*} {step : σ → α → Option σ} {s : σ} {as : List α} {f : σ → β}
    {v : β} (h : (run step s as).map f = some v) : ∃ t, Reaches step anyAction s t ∧ f t = v := by
  obtain ⟨t, hrun, hv⟩ := Option.map_eq_some_iff.mp h
  exact ⟨t, reaches_of_run hrun, hv⟩

def guarded (step : σ → α → Option σ) (ok : σ → α → Prop) [∀ s a, Decidable (ok s a)] (s : σ)
    (a : α) : Option σ := if ok s a then step s a else none

theorem run_guarded {step : σ → α → Option σ} {ok : σ → α → Prop} [∀ s a, Decidable (ok s a)]
    {s t : σ} {as : List α} (halong : Along step ok s as) (hrun : run step s as = some t) :
    run (guarded step ok) s as = some t := by
  induction as generalizing s with
  | nil => exact hrun
  | cons a as ih =>
      obtain ⟨u, hu, hrest⟩ := run_cons_some hrun
      have hstep : guarded step ok s a = some u := by rw [guarded, if_pos halong.1, hu]
      rw [run_cons, hstep]
      exact ih (halong.2 u hu) hrest

/-- A run that checks its condition before every step, for evaluation. -/
def checkedRun (step : σ → α → Option σ) (ok : σ → α → Prop) [∀ s a, Decidable (ok s a)] (s : σ) :
    List α → Option σ
  | [] => some s
  | a :: as => if ok s a then (step s a).bind fun t => checkedRun step ok t as else none

theorem along_of_checkedRun {step : σ → α → Option σ} {ok : σ → α → Prop}
    [∀ s a, Decidable (ok s a)] {s t : σ} {as : List α} (h : checkedRun step ok s as = some t) :
    Along step ok s as ∧ run step s as = some t := by
  induction as generalizing s with
  | nil => exact ⟨trivial, h⟩
  | cons a as ih =>
      simp only [checkedRun, Option.ite_none_right_eq_some, Option.bind_eq_some_iff] at h
      obtain ⟨hok, u, hu, hrest⟩ := h
      obtain ⟨halong, hrun⟩ := ih hrest
      refine ⟨⟨hok, ?_⟩, ?_⟩
      · intro v hv
        rw [hu, Option.some.injEq] at hv
        rw [← hv]
        exact halong
      · rw [run_cons, hu]
        exact hrun

theorem reaches_of_checkedRun {step : σ → α → Option σ} {ok : σ → α → Prop}
    [∀ s a, Decidable (ok s a)] {s t : σ} {as : List α} (h : checkedRun step ok s as = some t) :
    Reaches step ok s t := ⟨as, along_of_checkedRun h⟩

theorem reaches_of_map_checkedRun {β : Type*} {step : σ → α → Option σ} {ok : σ → α → Prop}
    [∀ s a, Decidable (ok s a)] {s : σ} {as : List α} {f : σ → β} {v : β}
    (h : (checkedRun step ok s as).map f = some v) : ∃ t, Reaches step ok s t ∧ f t = v := by
  obtain ⟨t, hrun, hv⟩ := Option.map_eq_some_iff.mp h
  exact ⟨t, reaches_of_checkedRun hrun, hv⟩

/-! ## Calls that always return -/

variable {β : Type*}

def answers (call : σ → α → β × σ) : σ → List α → List β
  | _, [] => []
  | s, a :: as => (call s a).1 :: answers call (call s a).2 as

/-- A rank that falls with every call that does not give the answer bounds the number of
calls until the answer is given. -/
theorem mem_answers_of_rank {call : σ → α → β × σ} {b : β} (Inv : σ → Prop) (ok : α → Prop)
    (rank : σ → Nat) (hstep : ∀ s a, Inv s → ok a →
      (call s a).1 = b ∨ (Inv (call s a).2 ∧ rank (call s a).2 < rank s))
    {as : List α} (hok : ∀ a ∈ as, ok a) {s : σ} (hs : Inv s) (hrank : rank s < as.length) :
    b ∈ answers call s as := by
  induction as generalizing s with
  | nil => exact absurd hrank (Nat.not_lt_zero _)
  | cons a as ih =>
      rcases hstep s a hs (hok a (List.mem_cons_self ..)) with hanswer | ⟨hinv, hfall⟩
      · rw [answers, hanswer]
        exact List.mem_cons_self ..
      · rw [List.length_cons] at hrank
        refine List.mem_cons_of_mem _ (ih (fun c hc => hok c (List.mem_cons_of_mem _ hc)) hinv ?_)
        omega

end RdmaMigration.Lib
