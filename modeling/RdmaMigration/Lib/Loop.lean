import Mathlib.Data.Nat.Notation

/-! # Loops whose body may throw

`while (go s) s = body s`, for a number of rounds. `none` is an exception of the body. A
result other than `running` does not depend on the number of rounds that were allowed.
-/

namespace RdmaMigration.Lib

variable {σ τ : Type*}

inductive LoopResult (σ : Type*) where
  | running
  | threw
  | returned (s : σ)
  deriving DecidableEq

namespace LoopResult

def map (f : σ → τ) : LoopResult σ → LoopResult τ
  | running => running
  | threw => threw
  | returned s => returned (f s)

def ofOption : Option σ → LoopResult σ
  | none => threw
  | some s => returned s

theorem map_eq_returned {f : σ → τ} {r : LoopResult σ} {t : τ} (h : r.map f = returned t) :
    ∃ s, r = returned s ∧ f s = t := by
  cases r with
  | running => cases h
  | threw => cases h
  | returned s =>
      cases h
      exact ⟨s, rfl, rfl⟩

end LoopResult

def loop (go : σ → Bool) (body : σ → Option σ) : ℕ → σ → LoopResult σ
  | 0, s => if go s then .running else .returned s
  | rounds + 1, s =>
      if go s then
        match body s with
        | none => .threw
        | some t => loop go body rounds t
      else .returned s

variable {go : σ → Bool} {body : σ → Option σ} {rounds : ℕ} {s t : σ}

theorem loop_of_stop (h : go s = false) : loop go body rounds s = .returned s := by
  cases rounds <;> simp [loop, h]

theorem loop_of_throw (hgo : go s = true) (h : body s = none) :
    loop go body (rounds + 1) s = .threw := by
  simp [loop, hgo, h]

theorem loop_of_step (hgo : go s = true) (h : body s = some t) :
    loop go body (rounds + 1) s = loop go body rounds t := by
  simp [loop, hgo, h]

theorem loop_invariant {Inv : σ → Prop}
    (hstep : ∀ s t, Inv s → go s = true → body s = some t → Inv t) (hs : Inv s)
    (h : loop go body rounds s = .returned t) : Inv t := by
  induction rounds generalizing s with
  | zero =>
      cases hgo : go s with
      | false =>
          rw [loop_of_stop hgo] at h
          cases h
          exact hs
      | true => simp [loop, hgo] at h
  | succ rounds ih =>
      cases hgo : go s with
      | false =>
          rw [loop_of_stop hgo] at h
          cases h
          exact hs
      | true =>
          cases hbody : body s with
          | none =>
              rw [loop_of_throw hgo hbody] at h
              cases h
          | some u =>
              rw [loop_of_step hgo hbody] at h
              exact ih (hstep s u hs hgo hbody) h

end RdmaMigration.Lib
