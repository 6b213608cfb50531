import Mathlib.Algebra.Order.BigOperators.Group.Finset
import Mathlib.Data.Fintype.EquivFin
import RdmaMigration.Lib.Progress
import RdmaMigration.Lib.Update
import RdmaMigration.Paging.Safety

/-! # No page stays in flight

A page that is in flight is held by exactly one job, and a job can always go on: its
read completes, its stores and calls of `mprotect` succeed, and the callback of an
asynchronous read finds a slot. So when the jobs that have begun are run to their
end, in any order, every page is still at the source or has arrived and is open, and
the byte that made a handler run can be accessed.
-/

namespace RdmaMigration.Paging

open Lib Function

/-! ## Who holds a page -/

def Holds (jobs : Nat → Option Job) (P : Job → Prop) : Prop := ∃ t j, jobs t = some j ∧ P j

structure Carries (jobs jobs' : Nat → Option Job) (t : Nat) (old new : Job) : Prop where
  before : jobs t = some old
  after : ∃ slot, jobs' slot = some new
  others : ∀ u j, u ≠ t → jobs u = some j → jobs' u = some j
  only : ∀ u j, jobs' u = some j → j = new ∨ jobs u = some j

variable {jobs : Nat → Option Job} {t start size n : Nat} {old : Job}

theorem Carries.put (h : jobs t = some old)
    (new : Job) : Carries jobs (update jobs t (some new)) t old new where
  before := h
  after := ⟨t, update_self ..⟩
  others := by
    intro u j hu hj
    rw [update_of_ne hu, hj]
  only := fun u j hj => (moves_update jobs t new u j hj).imp (·.2) (·.2.2)

theorem Carries.putSlot {slot : Nat}
    (h : jobs t = some old) (hfree : jobs slot = none) (new : Job) :
    Carries jobs (update (update jobs t none) slot (some new)) t old new where
  before := h
  after := ⟨slot, update_self ..⟩
  others := by
    intro u j hu hj
    have hslot : u ≠ slot := by
      rintro rfl
      rw [hfree] at hj
      cases hj
    rw [update_of_ne hslot, update_of_ne hu, hj]
  only := fun u j hj => (moves_update_slot jobs t slot new u j hj).imp (·.2) (·.2.2)

theorem Holds.carried {jobs' : Nat → Option Job} {new : Job} {P : Job → Prop}
    (hc : Carries jobs jobs' t old new) (hP : P old → P new) (h : Holds jobs P) :
    Holds jobs' P := by
  obtain ⟨u, j, hj, hPj⟩ := h
  by_cases hu : u = t
  · rw [hu, hc.before, Option.some.injEq] at hj
    rw [← hj] at hPj
    obtain ⟨slot, hslot⟩ := hc.after
    exact ⟨slot, new, hslot, hP hPj⟩
  · exact ⟨u, j, hc.others u j hu hj, hPj⟩

theorem Holds.others {jobs' : Nat → Option Job} {new : Job} {P : Job → Prop}
    (hc : Carries jobs jobs' t old new) (hP : ¬ P old) (h : Holds jobs P) : Holds jobs' P :=
  h.carried hc fun hold => absurd hold hP

/-- What the page table, the completed reads and the protection say about the jobs. -/
structure PageFacts (p : Pages) (completed : List (Nat × Nat)) (accessible : Nat → Bool)
    (jobs : Nat → Option Job) : Prop where
  flying : ∀ k, p.pages[k]? = some .inFlight →
    Holds jobs fun j => entry p j.address = k ∧ .store ∈ j.ops
  landed : ∀ k, p.pages[k]? = some .local → ∃ r ∈ completed, entry p r.1 = k
  opened : ∀ r ∈ completed, (∀ a, Covers r a → accessible a = true) ∨
    Holds jobs fun j => j.address = r.1 ∧ .protect ∈ j.ops
  opens : ∀ t j, jobs t = some j → .await ∈ j.ops → .protect ∈ j.ops

/-- What the threads say about the slots of the jobs. -/
structure SlotFacts (control : Nat → Control) (jobs : Nat → Option Job) : Prop where
  posting : ∀ t copy id, control t = .posting copy id →
    ∃ address size rest, jobs t = some ⟨address, size, .post :: rest⟩
  engaged : ∀ t j, jobs t = some j → Engaged (control t)
  finite : ∃ slots : Finset Nat, ∀ t ∉ slots, control t = .idle ∧ jobs t = none

structure Held (s : State) : Prop where
  pages : PageFacts s.pages s.completed s.accessible s.job
  slots : SlotFacts s.control s.job

/-! ## The pages -/

section Pages

variable {p : Pages} {completed : List (Nat × Nat)} {accessible : Nat → Bool}
  {jobs jobs' : Nat → Option Job} {t address size : Nat} {op : Atomic} {rest : List Atomic}

@[simp] theorem entry_store (p : Pages) (i : Int) (x : PageState) (a : Nat) :
    entry (p.store i x) a = entry p a := by
  rw [entry, entry, Pages.store_pageId]

theorem store_lookup {x y : PageState} {a k : Nat} (hentry : entryState p a = some x) :
    (k = entry p a ∧ (p.store (p.pageId a) y).pages[k]? = some y) ∨
      (k ≠ entry p a ∧ (p.store (p.pageId a) y).pages[k]? = p.pages[k]?) := by
  by_cases hk : k = entry p a
  · refine .inl ⟨hk, ?_⟩
    rw [hk, entry]
    exact entryState_store_self y hentry
  · exact .inr ⟨hk, List.getElem?_set_ne (Ne.symm hk)⟩

theorem PageFacts.opens_of_carries (hp : PageFacts p completed accessible jobs)
    (hc : Carries jobs jobs' t ⟨address, size, op :: rest⟩ ⟨address, size, rest⟩)
    (hop : op = .protect → .await ∉ rest) :
    ∀ u j, jobs' u = some j → .await ∈ j.ops → .protect ∈ j.ops := by
  intro u j hj hawait
  rcases hc.only u j hj with rfl | hold
  · have hprotect := hp.opens t _ hc.before (List.mem_cons_of_mem _ hawait)
    rcases List.mem_cons.mp hprotect with heq | hrest
    · exact absurd hawait (hop heq.symm)
    · exact hrest
  · exact hp.opens u j hold hawait

theorem PageFacts.take (hp : PageFacts p completed accessible jobs)
    (hremote : entryState p address = some .remote) (hfree : jobs t = none) {ops : List Atomic}
    (hstore : .store ∈ ops) (hprotect : .protect ∈ ops) :
    PageFacts (p.store (p.pageId address) .inFlight) completed accessible
      (update jobs t (some ⟨address, size, ops⟩)) := by
  have hkeep : ∀ P : Job → Prop, Holds jobs P →
      Holds (update jobs t (some ⟨address, size, ops⟩)) P := by
    rintro P ⟨u, j, hj, hP⟩
    have hu : u ≠ t := by
      rintro rfl
      rw [hfree] at hj
      cases hj
    exact ⟨u, j, by rw [update_of_ne hu, hj], hP⟩
  refine ⟨?_, ?_, ?_, ?_⟩
  · intro k hk
    rcases store_lookup (k := k) (y := .inFlight) hremote with ⟨hself, -⟩ | ⟨-, heq⟩
    · exact ⟨t, _, update_self .., (entry_store ..).trans hself.symm, hstore⟩
    · rw [heq] at hk
      exact hkeep _ (hp.flying k hk)
  · intro k hk
    rcases store_lookup (k := k) (y := .inFlight) hremote with ⟨-, heq⟩ | ⟨-, heq⟩
    · rw [heq] at hk
      cases hk
    · rw [heq] at hk
      exact hp.landed k hk
  · intro r hr
    exact (hp.opened r hr).imp_right (hkeep _)
  · intro u j hj hawait
    rcases update_eq_some hj with ⟨-, hnew⟩ | ⟨-, hold⟩
    · cases hnew
      exact hprotect
    · exact hp.opens u j hold hawait

theorem PageFacts.quiet (hp : PageFacts p completed accessible jobs)
    (hc : Carries jobs jobs' t ⟨address, size, op :: rest⟩ ⟨address, size, rest⟩)
    (hstore : op ≠ .store) (hprotect : op ≠ .protect) (localPages : Int) :
    PageFacts { p with localPages := localPages } completed accessible jobs' := by
  have hmem : ∀ x, op ≠ x → x ∈ op :: rest → x ∈ rest := by
    intro x hx h
    exact (List.mem_cons.mp h).resolve_left (Ne.symm hx)
  refine ⟨?_, hp.landed, ?_, hp.opens_of_carries hc fun h => absurd h hprotect⟩
  · intro k hk
    exact (hp.flying k hk).carried hc fun h => ⟨h.1, hmem _ hstore h.2⟩
  · intro r hr
    exact (hp.opened r hr).imp_right fun h => h.carried hc fun h => ⟨h.1, hmem _ hprotect h.2⟩

theorem PageFacts.complete (hp : PageFacts p completed accessible jobs)
    (hc : Carries jobs jobs' t ⟨address, size, .await :: rest⟩ ⟨address, size, rest⟩) :
    PageFacts p ((address, size) :: completed) accessible jobs' := by
  have hquiet := hp.quiet hc (by decide) (by decide) p.localPages
  refine ⟨hquiet.flying, ?_, ?_, hquiet.opens⟩
  · intro k hk
    obtain ⟨r, hr, heq⟩ := hp.landed k hk
    exact ⟨r, List.mem_cons_of_mem _ hr, heq⟩
  · intro r hr
    rcases List.mem_cons.mp hr with rfl | hr
    · have hprotect := hp.opens t _ hc.before List.mem_cons_self
      obtain ⟨slot, hslot⟩ := hc.after
      exact .inr ⟨slot, _, hslot, rfl, (List.mem_cons.mp hprotect).resolve_left (by decide)⟩
    · exact hquiet.opened r hr

theorem PageFacts.protect (hp : PageFacts p completed accessible jobs)
    (hc : Carries jobs jobs' t ⟨address, size, .protect :: rest⟩ ⟨address, size, rest⟩)
    (hawait : .await ∉ rest) {accessible' : Nat → Bool}
    (hmore : ∀ a, accessible a = true → accessible' a = true)
    (hopen : ∀ r ∈ completed, r.1 = address → ∀ a, Covers r a → accessible' a = true) :
    PageFacts p completed accessible' jobs' := by
  refine ⟨?_, hp.landed, ?_, hp.opens_of_carries hc fun _ => hawait⟩
  · intro k hk
    exact (hp.flying k hk).carried hc fun h =>
      ⟨h.1, (List.mem_cons.mp h.2).resolve_left (by decide)⟩
  · intro r hr
    rcases hp.opened r hr with hall | hheld
    · exact .inl fun a ha => hmore a (hall a ha)
    · by_cases hself : r.1 = address
      · exact .inl (hopen r hr hself)
      · exact .inr (hheld.others hc fun h => hself h.1.symm)

theorem PageFacts.store (hp : PageFacts p completed accessible jobs)
    (hc : Carries jobs jobs' t ⟨address, size, .store :: rest⟩ ⟨address, size, rest⟩)
    (hinFlight : entryState p address = some .inFlight)
    (harrived : (address, defaultPageSize) ∈ completed) :
    PageFacts (p.store (p.pageId address) .local) completed accessible jobs' := by
  refine ⟨?_, ?_, ?_, hp.opens_of_carries hc (by simp)⟩
  · intro k hk
    rcases store_lookup (k := k) (y := .local) hinFlight with ⟨-, heq⟩ | ⟨hne, heq⟩
    · rw [heq] at hk
      cases hk
    · rw [heq] at hk
      exact (hp.flying k hk).others hc fun h => hne h.1.symm
  · intro k hk
    rcases store_lookup (k := k) (y := .local) hinFlight with ⟨hself, -⟩ | ⟨-, heq⟩
    · exact ⟨_, harrived, (entry_store ..).trans hself.symm⟩
    · rw [heq] at hk
      exact hp.landed k hk
  · intro r hr
    exact (hp.opened r hr).imp_right fun h => h.carried hc fun h =>
      ⟨h.1, (List.mem_cons.mp h.2).resolve_left (by decide)⟩

theorem PageFacts.drop (hp : PageFacts p completed accessible jobs)
    (hjob : jobs t = some ⟨address, size, []⟩) :
    PageFacts p completed accessible (update jobs t none) := by
  have hkeep : ∀ (P : Job → Prop), ¬ P ⟨address, size, []⟩ → Holds jobs P →
      Holds (update jobs t none) P := by
    rintro P hP ⟨u, j, hj, hPj⟩
    have hu : u ≠ t := by
      rintro rfl
      rw [hjob, Option.some.injEq] at hj
      exact hP (hj ▸ hPj)
    exact ⟨u, j, by rw [update_of_ne hu, hj], hPj⟩
  refine ⟨?_, hp.landed, ?_, ?_⟩
  · intro k hk
    exact hkeep _ (by simp) (hp.flying k hk)
  · intro r hr
    exact (hp.opened r hr).imp_right (hkeep _ (by simp))
  · intro u j hj
    rcases update_eq_some hj with ⟨-, hnone⟩ | ⟨-, hold⟩
    · cases hnone
    · exact hp.opens u j hold

end Pages

/-! ## The slots -/

section Slots

variable {control : Nat → Control} {jobs : Nat → Option Job} {t slot : Nat}

theorem SlotFacts.job_none (hs : SlotFacts control jobs) (hc : ¬ Engaged (control t)) :
    jobs t = none := by
  cases hjob : jobs t with
  | none => rfl
  | some j => exact absurd (hs.engaged t j hjob) hc

theorem SlotFacts.change (hs : SlotFacts control jobs) {c : Control} {x : Option Job}
    (hposting : ∀ copy id, c = .posting copy id →
      ∃ address size rest, x = some ⟨address, size, .post :: rest⟩)
    (hengaged : x.isSome → Engaged c) :
    SlotFacts (update control t c) (update jobs t x) := by
  refine ⟨?_, ?_, ?_⟩
  · intro u copy id hu
    by_cases hut : u = t
    · subst hut
      rw [update_self] at hu ⊢
      exact hposting copy id hu
    · rw [update_of_ne hut] at hu ⊢
      exact hs.posting u copy id hu
  · intro u j hj
    rcases update_eq_some hj with ⟨rfl, hx⟩ | ⟨hut, hold⟩
    · rw [update_self]
      exact hengaged (by rw [hx]; rfl)
    · rw [update_of_ne hut]
      exact hs.engaged u j hold
  · obtain ⟨slots, hslots⟩ := hs.finite
    refine ⟨insert t slots, ?_⟩
    intro u hu
    rw [Finset.mem_insert, not_or] at hu
    rw [update_of_ne hu.1, update_of_ne hu.1]
    exact hslots u hu.2

theorem SlotFacts.turn (hs : SlotFacts control jobs) (hjob : jobs t = none) {c : Control}
    (hc : ∀ copy id, c ≠ .posting copy id) : SlotFacts (update control t c) jobs := by
  have hchange := hs.change (t := t) (c := c) (x := jobs t) (fun copy id h => absurd h (hc copy id))
    (by simp [hjob])
  rwa [update_eq_self] at hchange

theorem SlotFacts.work (hs : SlotFacts control jobs) {j k : Job} (hjob : jobs t = some j)
    (hc : ∀ copy id, control t ≠ .posting copy id) :
    SlotFacts control (update jobs t (some k)) := by
  have hchange := hs.change (t := t) (c := control t) (x := some k)
    (fun copy id h => absurd h (hc copy id)) (fun _ => hs.engaged t j hjob)
  rwa [update_eq_self] at hchange

end Slots

/-! ## The steps -/

section Steps

variable {start size : Nat} {s s' : State} {t : Nat}

theorem Held.turn (hh : Held s) (h : Turn s t s') : Held s' := by
  cases h with
  | goes c limiter hfrom hto =>
      exact ⟨hh.pages, hh.slots.turn (hh.slots.job_none hfrom) hto⟩
  | takes address length ops won hfrom hwon hremote hstore hprotect =>
      refine ⟨?_, ?_⟩
      · exact hh.pages.take hremote (hh.slots.job_none hfrom) (List.mem_cons_of_mem _ hstore)
          (List.mem_cons_of_mem _ hprotect)
      · exact hh.slots.change (fun _ _ _ => ⟨address, length, ops, rfl⟩) fun _ => hwon
  | posts copy id address length slot rest hfrom hjob hslot =>
      refine ⟨?_, ?_⟩
      · exact hh.pages.quiet (Carries.putSlot hjob hslot.2 _) (by decide) (by decide)
          s.pages.localPages
      · have hne : slot ≠ t := by
          rintro rfl
          rw [hslot.1] at hfrom
          cases hfrom
        have hdone := hh.slots.change (t := t) (c := .scanning true copy (id + 1)) (x := none)
          (by simp) (by simp)
        have hplaced := hdone.change (t := slot) (c := .idle)
          (x := some ⟨address, length, rest⟩) (by simp) fun _ => trivial
        have hidle : update (update s.control t (.scanning true copy (id + 1)))
            slot .idle = update s.control t (.scanning true copy (id + 1)) := by
          rw [update_eq_self_iff, update_of_ne hne, hslot.1]
        rwa [hidle] at hplaced

theorem resume_posting {c : Control} {copy : List PageState} {id : Nat}
    (h : resume c = .posting copy id) : c = .posting copy id := by
  cases c with
  | working next =>
      cases next with
      | none => cases h
      | some next => cases h
  | idle | faulted | copying | scanning | limiting | adding | claiming | posting => exact h

theorem Held.worked (hi : Inv start size s) (hh : Held s)
    (hne : ∀ copy id, s.control t ≠ .posting copy id) (h : Worked s t s') : Held s' := by
  cases h with
  | ends hjob =>
      refine ⟨hh.pages.drop hjob, hh.slots.change ?_ (by simp)⟩
      intro copy id hposting
      exact absurd (resume_posting hposting) (hne copy id)
  | post hjob | count hjob | release hjob =>
      exact ⟨hh.pages.quiet (.put hjob _) (by simp) (by simp) _, hh.slots.work hjob hne⟩
  | @protect address length rest accessible hjob hopens =>
      have hinv := hi.job t _ hjob
      have hlength : length = defaultPageSize := hinv.length
      rw [mprotect, Option.ite_none_right_eq_some, Option.some.injEq] at hopens
      obtain ⟨-, rfl⟩ := hopens
      refine ⟨hh.pages.protect (.put hjob _) hinv.order.2.1 ?_ ?_, hh.slots.work hjob hne⟩
      · intro a ha
        simp [ha]
      · intro r hr hself a ha
        have hrlen := (hi.postedPage r (hi.completed r hr)).2
        have hcovers : Covers (address, 4096 * ((length + 4095) / 4096)) a := by
          rw [hlength]
          unfold Covers at ha ⊢
          rw [hrlen, hself] at ha
          exact ha
        exact if_pos hcovers
  | @store address length rest hjob =>
      have hinv := hi.job t _ hjob
      have harrived : .await ∉ Atomic.store :: rest := by simp [hinv.order.2.1]
      exact ⟨hh.pages.store (.put hjob _) (hinv.pending List.mem_cons_self)
        (hinv.arrived harrived), hh.slots.work hjob hne⟩

theorem Held.step {env : Environment} {a : Action} (hi : Inv start size s) (hh : Held s)
    (h : step env s a = some s') : Held s' := by
  cases step_stepped h with
  | fault hfree | start hfree => exact ⟨hh.pages, hh.slots.turn hfree.2 (by simp)⟩
  | control hturn => exact hh.turn hturn
  | op hne hworked => exact hh.worked hi hne hworked
  | land | write => exact ⟨hh.pages, hh.slots⟩
  | @complete t _ _ _ hjob =>
      refine ⟨hh.pages.complete (.put hjob _), hh.slots.work hjob ?_⟩
      -- A thread about to post has not posted its read yet.
      intro copy id hposting
      obtain ⟨_, _, _, hpost⟩ := hh.slots.posting t copy id hposting
      rw [hjob] at hpost
      cases hpost

end Steps

theorem initial_held (hal : Aligned start size) {memory : Nat → UInt8}
    {accessible : Nat → Bool} {limiter : Nat → Int} {s : State}
    (h : onTransfer start size memory accessible limiter = some s) : Held s := by
  simp only [onTransfer, Option.bind_eq_bind, Option.bind_eq_some_iff, Option.pure_def,
    Option.some.injEq] at h
  obtain ⟨pages, hpages, acc, -, rfl⟩ := h
  obtain ⟨-, hremote⟩ := construct_geometry hal hpages
  have hnot : ∀ (k : Nat) x, pages.pages[k]? = some x → x = .remote := by
    intro k x hk
    exact hremote x (List.mem_of_getElem? hk)
  refine ⟨⟨?_, ?_, by simp, by simp⟩, ⟨by simp, by simp, ⟨∅, fun t _ => ⟨rfl, rfl⟩⟩⟩⟩
  · intro k hk
    cases hnot k _ hk
  · intro k hk
    cases hnot k _ hk

/-! ## The work that is left -/

/-- The operations a job still has to do, and its end. -/
def weight : Option Job → Nat
  | none => 0
  | some j => j.ops.length + 1

def Work (n : Nat) (jobs : Nat → Option Job) : Prop :=
  ∃ slots : Finset Nat, (∀ t ∉ slots, jobs t = none) ∧ ∑ t ∈ slots, weight (jobs t) ≤ n

/-- The steps that finish what has begun: no fault is taken and no pull is started. -/
def Pending (s : State) : Action → Prop
  | .op _ | .complete _ => True
  | .control t _ _ => ∃ copy id, s.control t = .posting copy id
  | _ => False

/-- Whatever is put into an empty or a used slot counts from then on. -/
theorem Work.put (h : Work n jobs) (t : Nat)
    (x : Option Job) : Work (n - weight (jobs t) + weight x) (update jobs t x) := by
  obtain ⟨slots, hout, hsum⟩ := h
  have hinsert : ∑ u ∈ insert t slots, weight (jobs u) = ∑ u ∈ slots, weight (jobs u) := by
    by_cases ht : t ∈ slots
    · rw [Finset.insert_eq_of_mem ht]
    · rw [Finset.sum_insert ht, hout t ht, weight, Nat.zero_add]
  refine ⟨insert t slots, ?_, ?_⟩
  · intro u hu
    rw [Finset.mem_insert, not_or] at hu
    rw [update_of_ne hu.1, hout u hu.2]
  · have hadd := sum_update_add_of_mem (Finset.mem_insert_self t slots) weight jobs x
    rw [hinsert] at hadd
    omega

theorem Work.le (h : Work n jobs) (t : Nat) :
    weight (jobs t) ≤ n := by
  obtain ⟨slots, hout, hsum⟩ := h
  by_cases ht : t ∈ slots
  · exact (Finset.single_le_sum (f := fun u => weight (jobs u)) (fun _ _ => Nat.zero_le _) ht).trans
      hsum
  · rw [hout t ht]
    exact Nat.zero_le n

theorem Work.falls (h : Work n jobs) {t : Nat} {x : Option Job} (hx : weight x < weight (jobs t)) :
    ∃ m < n, Work m (update jobs t x) := by
  have hle := h.le t
  exact ⟨_, by omega, h.put t x⟩

section Progress

variable {start size : Nat} {env : Environment} {s s' : State} {t : Nat}

theorem pending_falls {n : Nat} {a : Action} (hwork : Work n s.job) (hp : Pending s a)
    (h : step env s a = some s') : ∃ m < n, Work m s'.job := by
  cases step_stepped h with
  | op _ hworked =>
      cases hworked with
      | ends hjob | post hjob | protect hjob | store hjob | count hjob | release hjob =>
          exact hwork.falls (by simp [hjob, weight])
  | complete hjob => exact hwork.falls (by simp [hjob, weight])
  | @control t _ _ _ hturn =>
      obtain ⟨copy, id, hposting⟩ := hp
      cases hturn with
      | goes _ _ hfrom | takes _ _ _ _ hfrom =>
          rw [hposting] at hfrom
          exact absurd trivial hfrom
      | posts copy id address length slot rest hfrom hjob hslot =>
          have hne : slot ≠ t := by
            rintro rfl
            rw [hslot.1] at hfrom
            cases hfrom
          have hle := hwork.le t
          have hmoved := (hwork.put t none).put slot (some ⟨address, length, rest⟩)
          rw [update_of_ne hne, hslot.2, hjob] at hmoved
          rw [hjob] at hle
          simp only [weight, List.length_cons] at hmoved hle
          exact ⟨_, by omega, hmoved⟩
  | fault | start | land | write => exact absurd hp id

theorem pending_stuck (hal : Aligned start size) (hi : Inv start size s) (hh : Held s)
    (hstuck : ∀ a, Pending s a → step env s a = none) : s.job t = none := by
  cases hjob : s.job t with
  | none => rfl
  | some j =>
      exfalso
      obtain ⟨address, length, ops⟩ := j
      have hinv := hi.job t _ hjob
      by_cases hposting : ∃ copy id, s.control t = .posting copy id
      · obtain ⟨copy, id, hc⟩ := hposting
        obtain ⟨address', length', rest, hpost⟩ := hh.slots.posting t copy id hc
        obtain ⟨slots, hslots⟩ := hh.slots.finite
        obtain ⟨slot, hslot⟩ := Infinite.exists_notMem_finset slots
        have hnone := hstuck (.control t false slot) ⟨copy, id, hc⟩
        have hfree : s.Free slot := hslots slot hslot
        simp [step, controlStep, hc, hpost, hfree] at hnone
      · have hop := hstuck (.op t) trivial
        simp only [step] at hop
        unfold opStep at hop
        split at hop
        next copy id hc => exact hposting ⟨copy, id, hc⟩
        next hnone _ =>
          rw [hjob] at hnone
          cases hnone
        next => cases hop
        next address' length' op rest hjob' _ =>
          rw [hjob'] at hjob
          cases hjob
          cases op with
          | await =>
              have hcomplete := hstuck (.complete t) trivial
              simp [step, completeStep, hjob'] at hcomplete
          | protect =>
              have haligned : address % 4096 = 0 := by
                obtain ⟨k, hk, -⟩ := hinv.page
                obtain ⟨m, hm⟩ := hal.start_dvd
                dsimp only at hk
                unfold defaultPageSize at hk hm
                omega
              simp [mprotect, haligned] at hop
          | store =>
              have hentry := hinv.pending List.mem_cons_self
              rw [entryState] at hentry
              simp [hentry] at hop
          | post | count | release l => cases hop

/-- Every page is still at the source, or it has arrived and its bytes are open. -/
def Settled (s : State) : Prop :=
  ∀ (k : Nat) x, s.pages.pages[k]? = some x → x = .remote ∨
    x = .local ∧ ∃ r ∈ s.completed, entry s.pages r.1 = k ∧
      ∀ a, Covers r a → s.accessible a = true

theorem Held.settled (hh : Held s) (hjobs : ∀ t, s.job t = none) : Settled s := by
  have hnone : ∀ P, ¬ Holds s.job P := by
    rintro P ⟨t, j, hj, -⟩
    rw [hjobs t] at hj
    cases hj
  intro k x hx
  cases x with
  | remote => exact .inl rfl
  | inFlight => exact absurd (hh.pages.flying k hx) (hnone _)
  | «local» =>
      obtain ⟨r, hr, hentry⟩ := hh.pages.landed k hx
      exact .inr ⟨rfl, r, hr, hentry, (hh.pages.opened r hr).resolve_right (hnone _)⟩

/-! ## The page of a fault -/

/-- With fewer than `2 ^ 31` pages the table has an entry of its own for every page. -/
theorem entry_page {p : Pages} {address : Nat} (hal : Aligned start size)
    (hsize : size < 2 ^ 31 * defaultPageSize) (hg : Geometry start size p)
    (hpage : IsPage start size address) :
    address = start + defaultPageSize * entry p address := by
  obtain ⟨k, rfl, hk⟩ := hpage
  have hbound := hal.bound
  have hoffset : sub64 (start + defaultPageSize * k) start = defaultPageSize * k := by
    unfold sub64
    omega
  have hsmall : k < 2 ^ 31 := by
    unfold defaultPageSize at hk hsize
    omega
  have hentry : entry p (start + defaultPageSize * k) = k := by
    rw [entry, Pages.pageId, hg.startAddress, hg.pageSize, hoffset,
      Nat.mul_div_cancel_left _ (by decide), toInt32_of_lt hsmall, toSizeT_natCast (by omega)]
  rw [hentry]

/-- Page `k` has left the source or is on its way. -/
def Claimed (k : Nat) (s : State) : Prop := ∃ x, s.pages.pages[k]? = some x ∧ x ≠ .remote

theorem Claimed.step {k : Nat} {a : Action} (hi : Inv start size s) (hc : Claimed k s)
    (h : step env s a = some s') : Claimed k s' := by
  obtain ⟨x, hx, hne⟩ := hc
  rcases step_advances hi h k with hsame | ⟨hold, -⟩ | ⟨-, hnew⟩
  · exact ⟨x, hsame.trans hx, hne⟩
  · rw [hx, Option.some.injEq] at hold
    exact absurd hold hne
  · exact ⟨.local, hnew, by decide⟩

/-- A compare-and-exchange that does not fail spuriously leaves the page claimed, by this
thread or by another one. -/
theorem claimed_of_claim {address length : Nat} {ops : List Atomic} {won lost : Control}
    (h : claim s t address length ops won lost false = some s') :
    Claimed (entry s.pages address) s' := by
  obtain ⟨⟨ok, pages⟩, hcas, hs'⟩ := Option.map_eq_some_iff.mp h
  unfold Pages.compareExchangeWeak at hcas
  obtain ⟨current, hcurrent, hres⟩ := Option.map_eq_some_iff.mp hcas
  by_cases hremote : current = .remote
  · rw [if_pos ⟨hremote, rfl⟩, Prod.mk.injEq] at hres
    rw [← hres.1, if_pos rfl] at hs'
    subst hs'
    exact ⟨.inFlight, Pages.at?_store_self hcurrent .inFlight, by decide⟩
  · rw [if_neg (by simp [hremote]), Prod.mk.injEq] at hres
    rw [← hres.1, if_neg Bool.false_ne_true] at hs'
    subst hs'
    exact ⟨current, hcurrent, hremote⟩

end Progress

/-- The states of a run in which page `k` has been claimed and `n` operations are left. -/
structure Draining (start size k n : Nat) (s : State) : Prop where
  inv : Inv start size s
  held : Held s
  claimed : Claimed k s
  work : Work n s.job

theorem Held.work {s : State} (hh : Held s) : ∃ n, Work n s.job := by
  obtain ⟨slots, hslots⟩ := hh.slots.finite
  exact ⟨_, slots, fun t ht => (hslots t ht).2, le_rfl⟩

/-- The jobs that have begun come to their end in any order, and then every page is
settled and the claimed one has arrived. -/
theorem pending_completes {k : Nat} (hal : Aligned start size) (env : Environment)
    {s : State} (hs : Draining start size k n s) :
    Completes (step env) Pending s fun u => Inv start size u ∧ Claimed k u ∧ Settled u := by
  refine completes_of_rank (?_ : ∀ m u a v, Draining start size k m u → Pending u a →
    step env u a = some v → ∃ l < m, Draining start size k l v) ?_ hs
  · intro m u a v hu hpending hstep
    obtain ⟨l, hl, hwork⟩ := pending_falls hu.work hpending hstep
    exact ⟨l, hl, step_inv hal hu.inv hstep, hu.held.step hu.inv hstep,
      hu.claimed.step hu.inv hstep, hwork⟩
  · intro m u hu hstuck
    exact ⟨hu.inv, hu.claimed,
      hu.held.settled fun t => pending_stuck hal hu.inv hu.held hstuck⟩

theorem Settled.opens {a address : Nat} {u : State} (hal : Aligned start size)
    (hsize : size < 2 ^ 31 * defaultPageSize) (hi : Inv start size u) (hs : Settled u)
    (hpage : IsPage start size address) (hclaimed : Claimed (entry u.pages address) u)
    (ha : Covers (address, defaultPageSize) a) : u.accessible a = true := by
  obtain ⟨x, hx, hne⟩ := hclaimed
  rcases hs _ x hx with hremote | ⟨-, r, hr, hentry, hopen⟩
  · exact absurd hremote hne
  · obtain ⟨hrPage, hrLen⟩ := hi.postedPage r (hi.completed r hr)
    have hself : r.1 = address := by
      rw [entry_page hal hsize hi.geometry hrPage, hentry,
        ← entry_page hal hsize hi.geometry hpage]
    refine hopen a ?_
    unfold Covers at ha ⊢
    rw [hself, hrLen]
    exact ha

/-- A segment of whole pages, fewer than `2 ^ 31`, in a machine whose reads all succeed. A
thread has faulted on byte `a`, and its compare-and-exchange on the page has been made
without a spurious failure; another thread may have been first. At every later point the
jobs that have begun end after boundedly many steps, in whatever order they are taken, and
once they have, the byte can be accessed; no page is left in flight. -/
theorem faulted_byte_opens {start size : Nat} (hal : Aligned start size)
    (hsize : size < 2 ^ 31 * defaultPageSize) (env : Environment) {memory : Nat → UInt8}
    {accessible : Nat → Bool} {limiter : Nat → Int} {s₀ s s₁ s₂ : State}
    (h₀ : onTransfer start size memory accessible limiter = some s₀)
    (h : Reaches (step env) anyAction s₀ s) {t slot a : Nat} (ha : start ≤ a ∧ a < start + size)
    (hfaulted : s.control t = .faulted (s.pages.getPageAddress a)
      (s.pages.getPageSizeAt (s.pages.getPageAddress a)))
    (hclaim : step env s (.control t false slot) = some s₁)
    (hlater : Reaches (step env) anyAction s₁ s₂) :
    Completes (step env) Pending s₂ fun u => u.accessible a = true ∧ Settled u := by
  have hstart : Inv start size s₀ ∧ Held s₀ := ⟨initial_inv hal h₀, initial_held hal h₀⟩
  have hkeep : ∀ u act v, Inv start size u ∧ Held u → anyAction u act → step env u act = some v →
      Inv start size v ∧ Held v := by
    rintro u act v ⟨hi, hh⟩ - hstep
    exact ⟨step_inv hal hi hstep, hh.step hi hstep⟩
  have hs : Inv start size s ∧ Held s := h.invariant hkeep hstart
  have hs₁ := hkeep s _ s₁ hs trivial hclaim
  have hs₂ : Inv start size s₂ ∧ Held s₂ := hlater.invariant hkeep hs₁
  obtain ⟨hpage, -, hlo, hhi⟩ := getPageAddress_isPage hal hs.1.geometry ha.1 ha.2
  have hclaimed₁ : Claimed (entry s.pages (s.pages.getPageAddress a)) s₁ := by
    simp only [step, controlStep, hfaulted] at hclaim
    exact claimed_of_claim hclaim
  have hboth₂ : Inv start size s₂ ∧ Claimed (entry s.pages (s.pages.getPageAddress a)) s₂ := by
    refine @Reaches.invariant _ _ (step env) anyAction
      (fun u => Inv start size u ∧ Claimed (entry s.pages (s.pages.getPageAddress a)) u)
      ?_ s₁ s₂ ⟨hs₁.1, hclaimed₁⟩ hlater
    rintro u act v ⟨hi, hc⟩ - hstep
    exact ⟨step_inv hal hi hstep, hc.step hi hstep⟩
  obtain ⟨n, hwork⟩ := hs₂.2.work
  have hdrain := pending_completes hal env ⟨hs₂.1, hs₂.2, hboth₂.2, hwork⟩
  refine hdrain.imp ?_
  rintro u ⟨hi, hclaimed, hsettled⟩
  refine ⟨hsettled.opens hal hsize hi hpage ?_ ⟨hlo, hhi⟩, hsettled⟩
  have hentry : entry u.pages (s.pages.getPageAddress a) =
      entry s.pages (s.pages.getPageAddress a) := by
    have hu := entry_page hal hsize hi.geometry hpage
    have hs := entry_page hal hsize hs.1.geometry hpage
    unfold defaultPageSize at hu hs
    omega
  rw [hentry]
  exact hclaimed

/-- Two pages at `0x1000`: after the claim of a handler for byte 5000 its job can be run to
the end, and the byte is open. -/
theorem faulted_byte_opens_two_pages : ∃ s₁ u : State,
    Claimed 0 s₁ ∧ Reaches (step ⟨fun _ => 7, 1⟩) Pending s₁ u ∧ u.accessible 5000 = true := by
  let env : Environment := ⟨fun _ => 7, 1⟩
  have hevents : ((onTransfer 4096 8192 (fun _ => 0) (fun _ => true) (fun _ => 0)).bind fun s₀ =>
      (step env s₀ (.fault 0 5000)).bind fun s => (step env s (.control 0 false 0)).map fun s₁ =>
        (s.control 0, s.pages.getPageAddress 5000, s.pages.getPageSizeAt 4096,
          s₁.pages.pages)) =
      some (.faulted 4096 4096, 4096, 4096, [.inFlight, .remote]) := by
    decide +kernel
  obtain ⟨s₀, h₀, hrest⟩ := Option.bind_eq_some_iff.mp hevents
  obtain ⟨s, hfault, hrest⟩ := Option.bind_eq_some_iff.mp hrest
  obtain ⟨s₁, hclaim, hshown⟩ := Option.map_eq_some_iff.mp hrest
  simp only [Prod.mk.injEq] at hshown
  obtain ⟨hcontrol, haddress, hlength, hpages⟩ := hshown
  have hreach : Reaches (step env) anyAction s₀ s :=
    (Reaches.refl _ _ s₀).snoc trivial hfault
  have hal : Aligned 4096 8192 := ⟨by decide, by decide, by decide⟩
  have hdone := faulted_byte_opens hal (by decide) env h₀ hreach
    (by decide : 4096 ≤ 5000 ∧ 5000 < 4096 + 8192) (by rw [haddress, hlength, hcontrol]) hclaim
    (Reaches.refl _ _ s₁)
  obtain ⟨u, hu, hopen, -⟩ := hdone.exists_done
  exact ⟨s₁, u, ⟨.inFlight, by rw [hpages]; rfl, by decide⟩, hu, hopen⟩

end RdmaMigration.Paging
