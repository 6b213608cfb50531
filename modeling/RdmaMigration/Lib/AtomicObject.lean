import Mathlib.Logic.Function.Basic
import RdmaMigration.Lib.Run

/-! # Atomic objects

The canonical concurrent object for a sequential one: a call is invoked, takes its
whole effect in one step of its own, and responds with the answer it got. What a
run of such an object shows is a linearizable history by construction, since the
step that performs a call stands between its invocation and its response. An
implementation is linearizable when it simulates the canonical object.

The sequential object is a partial function on its values: a call that is not
possible in a value has to wait.
-/

namespace RdmaMigration.Lib

variable {ι σ C A : Type*}

inductive Phase (C A : Type*) where
  | idle
  | invoked (call : C)
  | answered (answer : A)

structure AtomicObject (ι σ C A : Type*) where
  value : σ
  phase : ι → Phase C A

inductive ObjectEvent (ι C A : Type*) where
  | invoke (i : ι) (call : C)
  | perform (i : ι)
  | respond (i : ι) (answer : A)

/-- The calls and answers `ops` are a run of the sequential object. -/
def Legal (apply : σ → C → Option (σ × A)) (s : σ) : List (C × A) → σ → Prop
  | [], t => s = t
  | op :: ops, t => ∃ u, apply s op.1 = some (u, op.2) ∧ Legal apply u ops t

namespace AtomicObject

variable [DecidableEq ι]

def fresh (s : σ) : AtomicObject ι σ C A := ⟨s, fun _ => .idle⟩

def setPhase (o : AtomicObject ι σ C A) (i : ι) (p : Phase C A) : AtomicObject ι σ C A :=
  { o with phase := Function.update o.phase i p }

def effect (apply : σ → C → Option (σ × A)) (o : AtomicObject ι σ C A) (i : ι) :
    Option (C × A × σ) :=
  match o.phase i with
  | .invoked c => (apply o.value c).map fun result => (c, result.2, result.1)
  | _ => none

def step [DecidableEq A] (apply : σ → C → Option (σ × A)) (o : AtomicObject ι σ C A) :
    ObjectEvent ι C A → Option (AtomicObject ι σ C A)
  | .invoke i c =>
      match o.phase i with
      | .idle => some (o.setPhase i (.invoked c))
      | _ => none
  | .perform i => (o.effect apply i).map fun e =>
      { o.setPhase i (.answered e.2.1) with value := e.2.2 }
  | .respond i a =>
      match o.phase i with
      | .answered b => if b = a then some (o.setPhase i .idle) else none
      | _ => none

variable [DecidableEq A] {apply : σ → C → Option (σ × A)}

/-- The call that takes effect with an event, with its answer. -/
def done (apply : σ → C → Option (σ × A)) (o : AtomicObject ι σ C A) :
    ObjectEvent ι C A → Option (ι × C × A)
  | .perform i => (o.effect apply i).map fun e => (i, e.1, e.2.1)
  | _ => none

def performed (apply : σ → C → Option (σ × A)) (o : AtomicObject ι σ C A) :
    List (ObjectEvent ι C A) → List (ι × C × A)
  | [] => []
  | e :: es =>
      match o.step apply e with
      | none => []
      | some o' => (o.done apply e).toList ++ o'.performed apply es

theorem step_value {o o' : AtomicObject ι σ C A} {e : ObjectEvent ι C A}
    (h : o.step apply e = some o') (he : o.done apply e = none) : o'.value = o.value := by
  cases e with
  | invoke i c =>
      simp only [step] at h
      split at h
      · cases h
        rfl
      · cases h
  | perform i =>
      rw [done, Option.map_eq_none_iff] at he
      rw [step, he] at h
      cases h
  | respond i a =>
      simp only [step] at h
      split at h
      · rw [Option.ite_none_right_eq_some] at h
        cases h.2
        rfl
      · cases h

theorem step_done {o o' : AtomicObject ι σ C A} {e : ObjectEvent ι C A} {op : ι × C × A}
    (h : o.step apply e = some o') (he : o.done apply e = some op) :
    apply o.value op.2.1 = some (o'.value, op.2.2) := by
  cases e with
  | perform i =>
      obtain ⟨x, hx, rfl⟩ := Option.map_eq_some_iff.mp he
      rw [step, hx] at h
      cases h
      unfold effect at hx
      split at hx
      · obtain ⟨result, hresult, rfl⟩ := Option.map_eq_some_iff.mp hx
        exact hresult
      · cases hx
  | invoke i c => cases he
  | respond i a => cases he

theorem legal_performed {o o' : AtomicObject ι σ C A} {es : List (ObjectEvent ι C A)}
    (h : run (step apply) o es = some o') :
    Legal apply o.value ((o.performed apply es).map (·.2)) o'.value := by
  induction es generalizing o with
  | nil =>
      cases h
      rfl
  | cons e es ih =>
      obtain ⟨u, hu, hrest⟩ := run_cons_some h
      have htail := ih hrest
      simp only [performed, hu]
      cases he : o.done apply e with
      | none =>
          rw [← step_value hu he]
          exact htail
      | some op => exact ⟨u.value, step_done hu he, htail⟩

end AtomicObject

end RdmaMigration.Lib
