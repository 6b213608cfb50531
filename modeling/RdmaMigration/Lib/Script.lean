import Mathlib.Data.List.Basic

/-! # Scripts of requests

A script is what one thread does: it makes one request after another, goes on
according to the answers, and returns or throws at the end. What the requests do
is left to whoever serves them, so that one script can be run alone, with requests
that fail, or a request at a time between those of other threads.
-/

namespace RdmaMigration.Lib

/-- Requests `ρ` with answers `β`, exceptions `ε`, and results `α`. -/
inductive Script (ρ : Type) (β : ρ → Type) (ε α : Type) where
  | ret (a : α)
  | throw (e : ε)
  | ask (r : ρ) (next : β r → Script ρ β ε α)

namespace Script

variable {ρ : Type} {β : ρ → Type} {ε α γ σ : Type}

protected def bind : Script ρ β ε α → (α → Script ρ β ε γ) → Script ρ β ε γ
  | .ret a, f => f a
  | .throw e, _ => .throw e
  | .ask r next, f => .ask r fun x => (next x).bind f

instance : Monad (Script ρ β ε) where
  pure := .ret
  bind := Script.bind

@[simp] theorem ret_bind (a : α) (f : α → Script ρ β ε γ) :
    ((.ret a : Script ρ β ε α) >>= f) = f a := rfl

@[simp] theorem pure_bind (a : α) (f : α → Script ρ β ε γ) :
    ((pure a : Script ρ β ε α) >>= f) = f a := rfl

@[simp] theorem throw_bind (e : ε) (f : α → Script ρ β ε γ) :
    ((.throw e : Script ρ β ε α) >>= f) = .throw e := rfl

@[simp] theorem ask_bind (r : ρ) (next : β r → Script ρ β ε α) (f : α → Script ρ β ε γ) :
    (Script.ask r next >>= f) = .ask r fun x => next x >>= f := rfl

theorem bind_assoc (t : Script ρ β ε α) (f : α → Script ρ β ε γ) (g : γ → Script ρ β ε σ) :
    (t >>= f) >>= g = t >>= fun a => f a >>= g := by
  induction t with
  | ret a => rfl
  | throw e => rfl
  | ask r next ih =>
      rw [ask_bind, ask_bind, ask_bind]
      exact congrArg _ (funext ih)

def request (r : ρ) : Script ρ β ε (β r) := .ask r .ret

@[simp] theorem request_bind (r : ρ) (f : β r → Script ρ β ε γ) :
    ((request r : Script ρ β ε (β r)) >>= f) = .ask r f := rfl

def orThrow (e : ε) : Option α → Script ρ β ε α
  | none => .throw e
  | some a => .ret a

@[simp] theorem orThrow_none (e : ε) : (orThrow e none : Script ρ β ε α) = .throw e := rfl

@[simp] theorem orThrow_some (e : ε) (a : α) : (orThrow e (some a) : Script ρ β ε α) = .ret a := rfl

/-! ## A script on its own -/

/-- The result of the script and the state it leaves, every request being served
in turn. -/
def run (serve : σ → (r : ρ) → β r × σ) : Script ρ β ε α → σ → Except ε α × σ
  | .ret a, s => (.ok a, s)
  | .throw e, s => (.error e, s)
  | .ask r next, s => (next (serve s r).1).run serve (serve s r).2

theorem run_ask (serve : σ → (r : ρ) → β r × σ) (r : ρ) (next : β r → Script ρ β ε α) (s : σ) :
    (Script.ask r next).run serve s = (next (serve s r).1).run serve (serve s r).2 := rfl

theorem run_bind (serve : σ → (r : ρ) → β r × σ) (t : Script ρ β ε α)
    (f : α → Script ρ β ε γ) (s : σ) :
    (t >>= f).run serve s =
      match t.run serve s with
      | (.ok a, s) => (f a).run serve s
      | (.error e, s) => (.error e, s) := by
  induction t generalizing s with
  | ret a => rfl
  | throw e => rfl
  | ask r next ih =>
      rw [ask_bind, run_ask, run_ask]
      exact ih (serve s r).1 (serve s r).2

/-- Every request that the script can come to is allowed. -/
def Only (allowed : ρ → Prop) : Script ρ β ε α → Prop
  | .ret _ | .throw _ => True
  | .ask r next => allowed r ∧ ∀ x, (next x).Only allowed

theorem Only.bind {allowed : ρ → Prop} {t : Script ρ β ε α} {f : α → Script ρ β ε γ}
    (ht : t.Only allowed) (hf : ∀ a, (f a).Only allowed) : (t >>= f).Only allowed := by
  induction t with
  | ret a => exact hf a
  | throw e => trivial
  | ask r next ih => exact ⟨ht.1, fun x => ih x (ht.2 x)⟩

theorem only_orThrow (allowed : ρ → Prop) (e : ε) (x : Option α) :
    (orThrow e x : Script ρ β ε α).Only allowed := by
  cases x with
  | none => trivial
  | some a => trivial

theorem Only.run_invariant {allowed : ρ → Prop} {serve : σ → (r : ρ) → β r × σ} {inv : σ → Prop}
    (hserve : ∀ s r, allowed r → inv s → inv (serve s r).2) {t : Script ρ β ε α}
    (ht : t.Only allowed) {s : σ} (hs : inv s) : inv (t.run serve s).2 := by
  induction t generalizing s with
  | ret a => exact hs
  | throw e => exact hs
  | ask r next ih => exact ih _ (ht.2 _) (hserve s r ht.1 hs)

theorem run_invariant {serve : σ → (r : ρ) → β r × σ} {inv : σ → Prop}
    (hserve : ∀ s r, inv s → inv (serve s r).2) (t : Script ρ β ε α) {s : σ} (hs : inv s) :
    inv (t.run serve s).2 := by
  induction t generalizing s with
  | ret a => exact hs
  | throw e => exact hs
  | ask r next ih => exact ih _ (hserve s r hs)

/-! ## Scripts that keep to an automaton -/

section Automaton

variable {Φ : Type} (after : Φ → (r : ρ) → β r → Option Φ) (ended : Φ → Prop)

/-- From the phase `φ` on, every request has a phase to go on to, whatever the
answer, and the script ends in a phase in which it may end. -/
def Follows : Script ρ β ε α → Φ → Prop
  | .ret _, φ | .throw _, φ => ended φ
  | .ask r next, φ => ∀ x, ∃ φ', after φ r x = some φ' ∧ (next x).Follows φ'

variable {after ended} {φ : Φ}

theorem follows_orThrow {e : ε} {x : Option α} {f : α → Script ρ β ε γ} (hended : ended φ)
    (hf : ∀ a, x = some a → (f a).Follows after ended φ) :
    (orThrow e x >>= f).Follows after ended φ := by
  cases x with
  | none => exact hended
  | some a => exact hf a rfl

theorem Only.follows_bind {allowed : ρ → Prop} {t : Script ρ β ε α} {f : α → Script ρ β ε γ}
    (ht : t.Only allowed) (hstay : ∀ r x, allowed r → after φ r x = some φ) (hended : ended φ)
    (hf : ∀ a, (f a).Follows after ended φ) : (t >>= f).Follows after ended φ := by
  induction t with
  | ret a => exact hf a
  | throw e => exact hended
  | ask r next ih => exact fun x => ⟨φ, hstay r x ht.1, ih x (ht.2 x)⟩

end Automaton

/-! ## A request at a time -/

def advance (serve : σ → (r : ρ) → β r × σ) (s : σ) :
    Script ρ β ε α → Option (Script ρ β ε α × σ)
  | .ret _ | .throw _ => none
  | .ask r next => some (next (serve s r).1, (serve s r).2)

/-! ## Scripts in a monad -/

def interpret {m : Type → Type} [Monad m] (perform : (r : ρ) → m (β r))
    (raise : {α : Type} → ε → m α) : Script ρ β ε α → m α
  | .ret a => pure a
  | .throw e => raise e
  | .ask r next => do
      let x ← perform r
      (next x).interpret perform raise

end Script

end RdmaMigration.Lib
