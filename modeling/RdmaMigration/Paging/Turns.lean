import RdmaMigration.Paging.Machine

/-! # What one step does

Every step of the machine, with the state it leaves. What a thread does outside its job is
the same whichever of the three functions it is in: it goes on without touching a page, it
takes a page, or it hands its read to the NIC.
-/

namespace RdmaMigration.Paging

open Lib Function

/-- The slots in which a job may stand: those of callbacks and of threads at work. -/
def Engaged : Control → Prop
  | .idle | .working _ | .posting _ _ => True
  | _ => False

inductive Turn (s : State) (t : Nat) : State → Prop
  | goes (c : Control) (limiter : Nat → Int) (hfrom : ¬ Engaged (s.control t))
      (hto : ∀ copy id, c ≠ .posting copy id) :
      Turn s t { s.setControl t c with limiter := limiter }
  | takes (address size : Nat) (ops : List Atomic) (won : Control)
      (hfrom : ¬ Engaged (s.control t)) (hwon : Engaged won)
      (hremote : s.pages.at? (s.pages.pageId address) = some .remote)
      (hstore : .store ∈ ops) (hprotect : .protect ∈ ops) :
      Turn s t (takePage s t address size (.post :: ops) won)
  | posts (copy : List PageState) (id address size slot : Nat) (rest : List Atomic)
      (hfrom : s.control t = .posting copy id)
      (hjob : s.job t = some ⟨address, size, .post :: rest⟩) (hslot : s.Free slot) :
      Turn s t { ((s.setJob t none).setJob slot (some ⟨address, size, rest⟩)).setControl t
        (.scanning true copy (id + 1)) with posted := (address, size) :: s.posted }

variable {s s' : State} {t slot : Nat} {spurious : Bool} {env : Environment}

theorem claim_turn {address size : Nat} {ops : List Atomic} {won lost : Control}
    (hfrom : ¬ Engaged (s.control t))
    (h : claim s t address size (.post :: ops) won lost spurious = some s') (hwon : Engaged won)
    (hlost : ∀ copy id, lost ≠ .posting copy id) (hstore : .store ∈ ops)
    (hprotect : .protect ∈ ops) : Turn s t s' := by
  rcases claim_cases h with ⟨hremote, rfl⟩ | rfl
  · exact .takes address size ops won hfrom hwon hremote hstore hprotect
  · exact .goes lost s.limiter hfrom hlost

theorem controlStep_turn (h : controlStep env s t spurious slot = some s') : Turn s t s' := by
  unfold controlStep at h
  split at h
  next => simp at h
  next => simp at h
  next heq =>
    exact claim_turn (by simp [heq, Engaged]) h trivial (by simp) (by simp) (by simp)
  next heq =>
    split at h <;> cases h <;> exact .goes _ s.limiter (by simp [heq, Engaged]) (by simp)
  next async copy id heq =>
    split at h
    next => cases h; exact .goes _ s.limiter (by simp [heq, Engaged]) (by simp)
    next => cases h; exact .goes _ s.limiter (by simp [heq, Engaged]) (by simp)
    next =>
      cases h
      refine .goes _ s.limiter (by simp [heq, Engaged]) ?_
      cases async with
      | true => simp
      | false => simp
  next heq =>
    split at h
    next =>
      cases h
      have hstays : Turn s t _ :=
        .goes (s.control t) s.limiter (by simp [heq, Engaged]) (by simp [heq])
      rwa [State.setControl, update_eq_self] at hstays
    next => cases h; exact .goes _ s.limiter (by simp [heq, Engaged]) (by simp)
  next heq =>
    cases h
    exact .goes _ _ (by simp [heq, Engaged]) (by simp)
  next heq =>
    exact claim_turn (by simp [heq, Engaged]) h trivial (by simp) (by simp [markPageLocal])
      (by simp [markPageLocal])
  next heq =>
    exact claim_turn (by simp [heq, Engaged]) h trivial (by simp) (by simp [markPageLocalCB])
      (by simp [markPageLocalCB])
  next copy id heq =>
    split at h
    next address size rest hjob =>
      split at h
      next hfree =>
        cases h
        exact .posts copy id address size slot rest heq hjob hfree
      next => simp at h
    next => simp at h

/-- An operation of the job in a slot, and the end of the job. -/
inductive Worked (s : State) (t : Nat) : State → Prop
  | ends {address size : Nat} (hjob : s.job t = some ⟨address, size, []⟩) :
      Worked s t ((s.setJob t none).setControl t (resume (s.control t)))
  | post {address size : Nat} {rest : List Atomic}
      (hjob : s.job t = some ⟨address, size, .post :: rest⟩) :
      Worked s t { s.setJob t (some ⟨address, size, rest⟩) with
        posted := (address, size) :: s.posted }
  | protect {address size : Nat} {rest : List Atomic} {accessible : Nat → Bool}
      (hjob : s.job t = some ⟨address, size, .protect :: rest⟩)
      (hopens : mprotect address size true s.accessible = some accessible) :
      Worked s t { s.setJob t (some ⟨address, size, rest⟩) with accessible := accessible }
  | store {address size : Nat} {rest : List Atomic}
      (hjob : s.job t = some ⟨address, size, .store :: rest⟩) :
      Worked s t { s.setJob t (some ⟨address, size, rest⟩) with
        pages := s.pages.store (s.pages.pageId address) .local }
  | count {address size : Nat} {rest : List Atomic}
      (hjob : s.job t = some ⟨address, size, .count :: rest⟩) :
      Worked s t { s.setJob t (some ⟨address, size, rest⟩) with
        pages := { s.pages with localPages := s.pages.localPages + 1 } }
  | release {address size l : Nat} {rest : List Atomic}
      (hjob : s.job t = some ⟨address, size, .release l :: rest⟩) :
      Worked s t { s.setJob t (some ⟨address, size, rest⟩) with
        limiter := update s.limiter l (s.limiter l - 1) }

theorem opStep_worked (h : opStep s t = some s') :
    (∀ copy id, s.control t ≠ .posting copy id) ∧ Worked s t s' := by
  unfold opStep at h
  split at h
  next => simp at h
  next => simp at h
  next hjob hne =>
    cases h
    exact ⟨hne, .ends hjob⟩
  next address size op rest hjob hne =>
    refine ⟨hne, ?_⟩
    cases op with
    | await => simp at h
    | post =>
        cases h
        exact .post hjob
    | protect =>
        obtain ⟨accessible, hopens, rfl⟩ := Option.map_eq_some_iff.mp h
        exact .protect hjob hopens
    | store =>
        obtain ⟨_, _, rfl⟩ := Option.map_eq_some_iff.mp h
        exact .store hjob
    | count =>
        cases h
        exact .count hjob
    | release l =>
        cases h
        exact .release hjob

inductive Stepped (env : Environment) (s : State) : Action → State → Prop
  | fault {t a : Nat} (hfree : s.Free t) (ha : s.Inside a) :
      Stepped env s (.fault t a) (s.setControl t (.faulted (s.pages.getPageAddress a)
        (s.pages.getPageSizeAt (s.pages.getPageAddress a))))
  | start {t : Nat} {async : Bool} (hfree : s.Free t) :
      Stepped env s (.start t async) (s.setControl t (.copying async []))
  | control {t slot : Nat} {spurious : Bool} {s' : State} (hturn : Turn s t s') :
      Stepped env s (.control t spurious slot) s'
  | op {t : Nat} {s' : State} (hne : ∀ copy id, s.control t ≠ .posting copy id)
      (hworked : Worked s t s') : Stepped env s (.op t) s'
  | land {t a address size : Nat} {rest : List Atomic}
      (hjob : s.job t = some ⟨address, size, .await :: rest⟩) (ha : Covers (address, size) a) :
      Stepped env s (.land t a) { s with memory := update s.memory a (env.source a) }
  | complete {t address size : Nat} {rest : List Atomic}
      (hjob : s.job t = some ⟨address, size, .await :: rest⟩) :
      Stepped env s (.complete t) { s.setJob t (some ⟨address, size, rest⟩) with
        memory := fun a => if Covers (address, size) a then env.source a else s.memory a
        completed := (address, size) :: s.completed }
  | write {a : Nat} {value : UInt8} (ha : s.Inside a) (hopen : s.accessible a = true) :
      Stepped env s (.write a value) { s with
        memory := update s.memory a value
        written := update s.written a true }

theorem step_stepped {action : Action} (h : step env s action = some s') :
    Stepped env s action s' := by
  cases action with
  | fault t a =>
      simp only [step, Option.ite_none_right_eq_some, Option.some.injEq] at h
      obtain ⟨⟨hfree, ha⟩, rfl⟩ := h
      exact .fault hfree ha
  | start t async =>
      simp only [step, Option.ite_none_right_eq_some, Option.some.injEq] at h
      obtain ⟨hfree, rfl⟩ := h
      exact .start hfree
  | control t spurious slot => exact .control (controlStep_turn h)
  | op t => exact .op (opStep_worked h).1 (opStep_worked h).2
  | land t a =>
      simp only [step, landStep] at h
      split at h
      next hjob =>
        rw [Option.ite_none_right_eq_some, Option.some.injEq] at h
        obtain ⟨ha, rfl⟩ := h
        exact .land hjob ha
      next => simp at h
  | complete t =>
      simp only [step, completeStep] at h
      split at h
      next hjob =>
        cases h
        exact .complete hjob
      next => simp at h
  | write a value =>
      simp only [step, Option.ite_none_right_eq_some, Option.some.injEq] at h
      obtain ⟨⟨ha, hopen⟩, rfl⟩ := h
      exact .write ha hopen

end RdmaMigration.Paging
