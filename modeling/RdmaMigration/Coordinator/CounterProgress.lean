import Mathlib.Algebra.BigOperators.Group.Multiset.Basic
import Mathlib.Algebra.Order.BigOperators.Group.Finset
import RdmaMigration.Coordinator.AddressCounter
import RdmaMigration.Lib.Progress
import RdmaMigration.Lib.Update

/-! # Every address request is answered

`getAllocationAddress` starts over whenever its write is refused, without any bound of its
own. While ZooKeeper answers, a refusal means that another caller's write came first, and
that caller is done. So any finite number of calls come to their end together, in whatever
order their reads and writes are served, and each of them gets a range of the size it asked
for.
-/

namespace RdmaMigration.Coordinator

open Lib Function Manager

/-! ## What is pending -/

namespace Progress

def asked : Progress → Multiset Nat
  | .idle | .creating => 0
  | .reading size => {size}
  | .writing size _ _ => {size}

/-- The steps to the return, with `2 * n` in reserve: when another call returns, a writer
that had read the counter before has to start over. -/
def cost (n version : Nat) : Progress → Nat
  | .idle | .creating => 0
  | .reading _ => 2 * n + 2
  | .writing _ _ v => if v = version then 2 * n + 1 else 2 * n + 3

theorem cost_le (n version version' : Nat) (p : Progress) :
    p.cost n version' ≤ p.cost n version + 2 := by
  cases p with
  | idle | creating => exact Nat.zero_le _
  | reading size => exact Nat.le_add_right _ _
  | writing size res v =>
      simp only [cost]
      split <;> split <;> omega

end Progress

namespace Counter

variable {st st' : Counter} {P : Finset Nat} {k version : Nat}

/-- ZooKeeper answers, and nobody begins a new call. -/
def Answers (_ : Counter) : Action → Prop
  | .get _ fails => fails = false
  | .set _ fate => fate = .answered
  | .exists _ _ | .create _ _ | .call _ _ => False

def pending (P : Finset Nat) (st : Counter) : Multiset Nat := ∑ c ∈ P, (st.caller c).asked

def requested (P : Finset Nat) (st : Counter) : Multiset Nat :=
  (st.returned.map Prod.snd : Multiset Nat) + st.pending P

def cost (P : Finset Nat) (version : Nat) (st : Counter) : Nat :=
  ∑ c ∈ P, (st.caller c).cost P.card version

/-! ## The steps -/

theorem Written.step_get (h : Written st k version) {c size : Nat}
    (hcaller : st.caller c = .reading size) :
    st.step (.get c false) = some (st.goto c (.writing size k version)) := by
  obtain ⟨hget, hstoul⟩ := h.get
  simp [step, hcaller, hget, hstoul]

theorem Written.step_set_stale (h : Written st k version) {c size res v : Nat}
    (hcaller : st.caller c = .writing size res v) (hstale : v ≠ version) :
    st.step (.set c .answered) = some (st.goto c (.reading size)) := by
  have hnone : st.increase size res v = none := by
    simp [increase, Store.set, h.node, Ne.symm hstale]
  simp [step, hcaller, Store.attempt, hnone, goto]

theorem Written.step_set (h : Written st k version) {c size res : Nat}
    (hcaller : st.caller c = .writing size res version) (hroom : k + size < 2 ^ 64) :
    ∃ st', st.step (.set c .answered) = some st' ∧ Written st' (k + size) (version + 1) ∧
      st'.caller = update st.caller c .idle ∧
      st'.returned = st.returned ++ [(k, size)] := by
  obtain rfl : res = k := (h.writers _ _ _ _ hcaller).2 rfl
  have hset : st.increase size res version = some (update st.zk .allocator
      (some ⟨decimal (res + size), version + 1⟩)) := by
    simp [increase, Store.set, h.node, wrap64_of_lt hroom]
  refine ⟨_, by simp [step, hcaller, Store.attempt, hset]; rfl, ⟨?_, ?_, hroom, ?_, ?_⟩, rfl, rfl⟩
  · simp
  · exact h.low.trans (Nat.le_add_right _ _)
  · intro c' size' res' v hc'
    have hold := (h.writers _ _ _ _ (goto_writing (by simp) hc')).1
    omega
  · intro r hr
    rcases List.mem_append.mp hr with hold | hnew
    · obtain ⟨hlow, hhigh⟩ := h.ranges r hold
      exact ⟨hlow, hhigh.trans (Nat.le_add_right _ _)⟩
    · rw [List.mem_singleton.mp hnew]
      exact ⟨h.low, le_rfl⟩

/-! ## The calls together -/

def Rests (st : Counter) (c : Nat) : Prop := st.caller c = .idle ∨ st.caller c = .creating

/-- The pending calls are among those of `P`, they and the returned ones make up `total`,
and the counter has room for them. -/
structure Serving (P : Finset Nat) (total : Multiset Nat) (k version : Nat) (st : Counter) :
    Prop where
  written : Written st k version
  apart : st.returned.Pairwise fun q r => ¬ Overlap q r
  outside : ∀ c, c ∉ P → st.Rests c
  sizes : st.requested P = total
  room : k + (st.pending P).sum < 2 ^ 64

variable {total : Multiset Nat}

theorem Written.goto (h : Written st k version) {c : Nat} {p : Progress}
    (hp : ∀ size res v, p = .writing size res v → v ≤ version ∧ (v = version → res = k)) :
    Written (st.goto c p) k version where
  node := h.node
  low := h.low
  high := h.high
  writers := by
    intro c' size res v hc'
    rcases update_cases (rfl : (st.goto c p).caller = _) c' with ⟨-, heq⟩ | ⟨-, heq⟩
    · exact hp size res v (heq.symm.trans hc')
    · exact h.writers c' size res v (heq.symm.trans hc')
  ranges := h.ranges

theorem pending_sum (st : Counter) (P : Finset Nat) :
    (st.pending P).sum = ∑ c ∈ P, ((st.caller c).asked).sum :=
  map_sum Multiset.sumAddMonoidHom _ _

theorem Serving.room_for (h : Serving P total k version st) {c size : Nat} (hc : c ∈ P)
    (hasked : (st.caller c).asked = {size}) : k + size < 2 ^ 64 := by
  have hle : ((st.caller c).asked).sum ≤ ∑ c ∈ P, ((st.caller c).asked).sum :=
    Finset.single_le_sum (f := fun c => ((st.caller c).asked).sum) (fun _ _ => Nat.zero_le _) hc
  rw [← pending_sum, hasked, Multiset.sum_singleton] at hle
  have hroom := h.room
  omega

theorem Serving.goto (h : Serving P total k version st) {c : Nat} {p : Progress} (hc : c ∈ P)
    (hasked : p.asked = (st.caller c).asked)
    (hp : ∀ size res v, p = .writing size res v → v ≤ version ∧ (v = version → res = k))
    (hcost : p.cost P.card version < (st.caller c).cost P.card version) :
    Serving P total k version (st.goto c p) ∧ (st.goto c p).cost P version < st.cost P version := by
  have hpending : (st.goto c p).pending P = st.pending P := by
    have hsum := sum_update_add_of_mem hc Progress.asked st.caller p
    rw [hasked] at hsum
    exact add_right_cancel hsum
  refine ⟨⟨h.written.goto hp, h.apart, fun c' hc' => ?_, ?_, ?_⟩, ?_⟩
  · have hne : c' ≠ c := fun heq => hc' (heq ▸ hc)
    have hsame : (st.goto c p).caller c' = st.caller c' := update_of_ne hne ..
    rw [Rests, hsame]
    exact h.outside c' hc'
  · rw [requested, hpending]
    exact h.sizes
  · rw [hpending]
    exact h.room
  · have hsum := sum_update_add_of_mem hc (Progress.cost P.card version) st.caller p
    show ∑ c' ∈ P, (update st.caller c p c').cost P.card version < _
    unfold cost
    omega

theorem Serving.returns (h : Serving P total k version st) {c size res : Nat} (hc : c ∈ P)
    (hcaller : st.caller c = .writing size res version) :
    ∃ st', st.step (.set c .answered) = some st' ∧
      Serving P total (k + size) (version + 1) st' ∧
      st'.cost P (version + 1) < st.cost P version := by
  have hasked : (st.caller c).asked = {size} := by rw [hcaller]; rfl
  obtain ⟨st', hstep, hwritten, hcallers, hreturned⟩ :=
    h.written.step_set hcaller (h.room_for hc hasked)
  have hpending : st'.pending P + {size} = st.pending P := by
    have hsum := sum_update_add_of_mem hc Progress.asked st.caller .idle
    rw [hasked] at hsum
    rw [pending, hcallers]
    exact hsum.trans (add_zero _)
  refine ⟨st', hstep, ⟨hwritten, ?_, fun c' hc' => ?_, ?_, ?_⟩, ?_⟩
  · rw [hreturned]
    refine List.pairwise_append.mpr ⟨h.apart, List.pairwise_singleton _ _, ?_⟩
    intro q hq r hr hover
    rw [List.mem_singleton.mp hr] at hover
    have hend := (h.written.ranges q hq).2
    unfold Overlap at hover
    simp only at hover
    omega
  · have hne : c' ≠ c := fun heq => hc' (heq ▸ hc)
    rw [Rests, hcallers, update_of_ne hne]
    exact h.outside c' hc'
  · rw [← h.sizes, requested, requested, ← hpending, hreturned, List.map_append,
      ← Multiset.coe_add, List.map_singleton, Multiset.coe_singleton, add_assoc]
    exact congrArg _ (add_comm _ _)
  · have hroom := h.room
    rw [← hpending, Multiset.sum_add, Multiset.sum_singleton] at hroom
    omega
  · have hsum := sum_update_add_of_mem hc (Progress.cost P.card (version + 1)) st.caller .idle
    have hlater : ∑ c' ∈ P, (st.caller c').cost P.card (version + 1) ≤
        st.cost P version + P.card * 2 := by
      rw [← Finset.sum_const_nat fun _ _ => rfl, cost, ← Finset.sum_add_distrib]
      exact Finset.sum_le_sum fun c' _ => Progress.cost_le _ _ _ _
    have hidle : Progress.idle.cost P.card (version + 1) = 0 := rfl
    have hwriter : (st.caller c).cost P.card (version + 1) = 2 * P.card + 3 := by
      simp [hcaller, Progress.cost]
    rw [cost, hcallers]
    omega

theorem Serving.step (h : Serving P total k version st) {a : Action} (hok : st.Answers a)
    (hstep : st.step a = some st') : ∃ k' version', Serving P total k' version' st' ∧
      st'.cost P version' < st.cost P version := by
  have hmem : ∀ c, ¬ st.Rests c → c ∈ P := fun c hc => by
    by_contra hout
    exact hc (h.outside c hout)
  cases a with
  | «exists» | create | call => exact absurd hok id
  | get c fails =>
      obtain rfl : fails = false := hok
      cases hcaller : st.caller c with
      | idle | creating | writing => simp [Counter.step, hcaller] at hstep
      | reading size =>
          have hc := hmem c (by simp [Rests, hcaller])
          rw [h.written.step_get hcaller] at hstep
          cases hstep
          refine ⟨k, version, h.goto hc (by rw [hcaller]; rfl) ?_ ?_⟩
          · intro size' res v heq
            cases heq
            exact ⟨le_rfl, fun _ => rfl⟩
          · rw [hcaller]
            simp [Progress.cost]
  | set c fate =>
      obtain rfl : fate = .answered := hok
      cases hcaller : st.caller c with
      | idle | creating | reading => simp [Counter.step, hcaller] at hstep
      | writing size res v =>
          have hc := hmem c (by simp [Rests, hcaller])
          by_cases hv : v = version
          · subst hv
            obtain ⟨st'', hstep', hserving, hless⟩ := h.returns hc hcaller
            cases hstep.symm.trans hstep'
            exact ⟨_, _, hserving, hless⟩
          · rw [h.written.step_set_stale hcaller hv] at hstep
            cases hstep
            refine ⟨k, version, h.goto hc (by rw [hcaller]; rfl) (by simp) ?_⟩
            rw [hcaller]
            simp [Progress.cost, hv]

theorem Serving.rests (h : Serving P total k version st)
    (hstuck : ∀ a, st.Answers a → st.step a = none) (c : Nat) : st.Rests c := by
  cases hcaller : st.caller c with
  | idle => exact .inl hcaller
  | creating => exact .inr hcaller
  | reading size =>
      have hnone := hstuck (.get c false) rfl
      rw [h.written.step_get hcaller] at hnone
      cases hnone
  | writing size res v =>
      have hnone := hstuck (.set c .answered) rfl
      by_cases hv : v = version
      · subst hv
        have hc : c ∈ P := by
          by_contra hout
          simpa [Rests, hcaller] using h.outside c hout
        obtain ⟨st', hstep, -⟩ := h.returns hc hcaller
        rw [hstep] at hnone
        cases hnone
      · rw [h.written.step_set_stale hcaller hv] at hnone
        cases hnone

/-- The calls that are pending all return, each with a range of its size, and all ranges
ever returned are apart. -/
theorem requests_answered (h : Reaches step Below initial st) (hvalue : st.value = some k)
    (houtside : ∀ c, c ∉ P → st.Rests c) (hroom : k + (st.pending P).sum < 2 ^ 64) :
    Completes step Answers st fun t => (∀ c, t.Rests c) ∧
      (t.returned.map Prod.snd : Multiset Nat) =
        (st.returned.map Prod.snd : Multiset Nat) + st.pending P ∧
      t.returned.Pairwise fun q r => ¬ Overlap q r := by
  have hinv : Inv st := h.invariant (fun _ _ _ hi => hi.step) initial_inv
  obtain ⟨version, hwritten⟩ := hinv.written hvalue
  refine completes_of_rank (?_ : ∀ m (u : Counter) a v,
    (∃ k version, Serving P (st.requested P) k version u ∧ u.cost P version = m) → _ → _ →
      ∃ l < m, ∃ k version, Serving P (st.requested P) k version v ∧ v.cost P version = l) ?_
    ⟨k, version, ⟨hwritten, hinv.apart, houtside, rfl, hroom⟩, rfl⟩
  · rintro m u a v ⟨k', version', hu, rfl⟩ hok hstep
    obtain ⟨k'', version'', hv, hless⟩ := hu.step hok hstep
    exact ⟨_, hless, k'', version'', hv, rfl⟩
  · rintro m u ⟨k', version', hu, -⟩ hstuck
    have hrests := hu.rests hstuck
    refine ⟨hrests, ?_, hu.apart⟩
    have hnone : u.pending P = 0 := by
      refine Finset.sum_eq_zero fun c _ => ?_
      rcases hrests c with hidle | hcreating
      · rw [hidle]
        rfl
      · rw [hcreating]
        rfl
    have hsizes := hu.sizes
    rw [requested, hnone, add_zero] at hsizes
    exact hsizes

theorem step_other {a : Action} (hbelow : Below st a) (h : st.step a = some st') {c : Nat}
    (hc : c ≠ a.actor) : st'.caller c = st.caller c := by
  cases step_effect h hbelow <;> exact update_of_ne hc ..

def threeReaders : List Action :=
  [.exists 0 false, .create 0 .answered, .call 0 4096, .call 1 8192, .call 2 4096, .get 0 false,
    .get 1 false, .get 2 false]

theorem requests_answered_three : ∃ st, Reaches step Below initial st ∧
    st.pending {0, 1, 2} = {4096, 8192, 4096} ∧
    ∃ t, Reaches step Answers st t ∧
      (t.returned.map Prod.snd : Multiset Nat) = {4096, 8192, 4096} := by
  have hrun : (checkedRun step (fun st a => Below st a ∧ a.actor < 3) initial threeReaders).map
      (fun st => ([st.caller 0, st.caller 1, st.caller 2], st.returned, st.value)) =
      some ([.writing 4096 allocatableRangeStart 0, .writing 8192 allocatableRangeStart 0,
        .writing 4096 allocatableRangeStart 0], [], some allocatableRangeStart) := by
    decide +kernel
  obtain ⟨st, hreach, hst⟩ := reaches_of_map_checkedRun hrun
  simp only [Prod.mk.injEq, List.cons.injEq, and_true] at hst
  obtain ⟨⟨hzero, hone, htwo⟩, hreturned, hvalue⟩ := hst
  have houtside : ∀ c, c ∉ ({0, 1, 2} : Finset Nat) → st.Rests c := by
    have hrest : ∀ c, 3 ≤ c → st.caller c = .idle := by
      refine @Reaches.invariant _ _ step _ (fun u => ∀ c, 3 ≤ c → u.caller c = .idle) ?_ _ _
        (fun _ _ => rfl) hreach
      intro u a v hu hok hstep c hc
      rw [step_other hok.1 hstep (by omega)]
      exact hu c hc
    intro c hc
    simp only [Finset.mem_insert, Finset.mem_singleton] at hc
    exact .inl (hrest c (by omega))
  have hbelow : Reaches step Below initial st := hreach.mono fun _ _ h => h.1
  have hpending : st.pending {0, 1, 2} = {4096, 8192, 4096} := by
    rw [pending, Finset.sum_insert (by decide), Finset.sum_insert (by decide),
      Finset.sum_singleton, hzero, hone, htwo]
    rfl
  obtain ⟨t, ht, -, hsizes, -⟩ := (requests_answered hbelow hvalue houtside
    (by rw [hpending]; decide)).exists_done
  refine ⟨st, hbelow, hpending, t, ht, ?_⟩
  rw [hsizes, hreturned, hpending]
  rfl

end Counter

end RdmaMigration.Coordinator
