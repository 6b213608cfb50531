import RdmaMigration.Lib.Run

/-! # Runs that come to their end

Safety says what holds in every state that is reached; this file says that an end
is reached. A machine completes from a state when no permitted run from it goes on
for ever and none is stuck before the end: a bound on the length of the runs, and a
permitted step wherever the end has not been reached. Both follow from one
invariant that carries a rank.
-/

namespace RdmaMigration.Lib

variable {σ α : Type*}

/-- Whatever permitted steps are taken from `s`, after boundedly many of them the state
is one of `Done` and, until then, there is a permitted step. -/
def Completes (step : σ → α → Option σ) (ok : σ → α → Prop) (s : σ) (Done : σ → Prop) : Prop :=
  (∃ bound, ∀ as t, Along step ok s as → run step s as = some t → as.length ≤ bound) ∧
    ∀ t, Reaches step ok s t → Done t ∨ ∃ a u, ok t a ∧ step t a = some u

theorem Completes.imp {step : σ → α → Option σ} {ok : σ → α → Prop} {s : σ} {P Q : σ → Prop}
    (h : Completes step ok s P) (hPQ : ∀ t, P t → Q t) : Completes step ok s Q :=
  ⟨h.1, fun t ht => (h.2 t ht).imp_left (hPQ t)⟩

section Rank

variable {step : σ → α → Option σ} {ok : σ → α → Prop} {Inv : Nat → σ → Prop}

theorem length_le_of_rank
    (hfall : ∀ n s a t, Inv n s → ok s a → step s a = some t → ∃ m < n, Inv m t)
    {n : Nat} {s t : σ} {as : List α} (hs : Inv n s) (halong : Along step ok s as)
    (hrun : run step s as = some t) : as.length ≤ n := by
  induction as generalizing n s with
  | nil => exact Nat.zero_le n
  | cons a as ih =>
      obtain ⟨u, hu, hrest⟩ := run_cons_some hrun
      obtain ⟨m, hm, hinv⟩ := hfall n s a u hs halong.1 hu
      have hlen := ih hinv (halong.2 u hu) hrest
      rw [List.length_cons]
      omega

/-- The rule: the rank falls with every permitted step, and where none is possible the
end has been reached. -/
theorem completes_of_rank {Done : σ → Prop}
    (hfall : ∀ n s a t, Inv n s → ok s a → step s a = some t → ∃ m < n, Inv m t)
    (hstuck : ∀ n s, Inv n s → (∀ a, ok s a → step s a = none) → Done s)
    {n : Nat} {s : σ} (hs : Inv n s) : Completes step ok s Done := by
  refine ⟨⟨n, fun as t halong hrun => length_le_of_rank hfall hs halong hrun⟩, ?_⟩
  intro t ht
  have hranked : ∃ m, Inv m t := by
    refine @Reaches.invariant σ α step ok (fun u => ∃ m, Inv m u) ?_ s t ⟨n, hs⟩ ht
    rintro u a v ⟨m, hm⟩ hok hstep
    obtain ⟨k, -, hk⟩ := hfall m u a v hm hok hstep
    exact ⟨k, hk⟩
  obtain ⟨m, hm⟩ := hranked
  by_contra hnot
  rw [not_or] at hnot
  refine hnot.1 (hstuck m t hm ?_)
  intro a hok
  cases hstep : step t a with
  | none => rfl
  | some u => exact absurd ⟨a, u, hok, hstep⟩ hnot.2

end Rank

theorem Completes.exists_done {step : σ → α → Option σ} {ok : σ → α → Prop} {s : σ}
    {Done : σ → Prop} (h : Completes step ok s Done) : ∃ t, Reaches step ok s t ∧ Done t := by
  obtain ⟨⟨bound, hbound⟩, hnext⟩ := h
  by_contra hnone
  rw [not_exists] at hnone
  -- Without an end there would be runs of every length.
  have hlong : ∀ n, ∃ as t, Along step ok s as ∧ run step s as = some t ∧ as.length = n := by
    intro n
    induction n with
    | zero => exact ⟨[], s, trivial, rfl, rfl⟩
    | succ n ih =>
        obtain ⟨as, t, halong, hrun, hlen⟩ := ih
        have hreach : Reaches step ok s t := ⟨as, halong, hrun⟩
        rcases hnext t hreach with hdone | ⟨a, u, hok, hstep⟩
        · exact absurd ⟨hreach, hdone⟩ (hnone t)
        · refine ⟨as ++ [a], u, along_append halong hrun ⟨hok, fun _ _ => trivial⟩, ?_, ?_⟩
          · rw [run_append, hrun, Option.bind_some, run_cons, hstep]
            rfl
          · rw [List.length_append, hlen]
            rfl
  obtain ⟨as, t, halong, hrun, hlen⟩ := hlong (bound + 1)
  have hle := hbound as t halong hrun
  omega

end RdmaMigration.Lib
