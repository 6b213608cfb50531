import RdmaMigration.Coordinator.AddressCounter
import RdmaMigration.Manager.Requests

/-! # Hints on page boundaries

Neither the bump pointer of a server nor the counter in ZooKeeper rounds a size up, and
the servers' shares of the range are what a division leaves. `mmap` maps whole pages.
-/

namespace RdmaMigration.Coordinator

open Lib Function Manager

def pagesOf (r : Nat × Nat) : Nat × Nat :=
  (4096 * (r.1 / 4096), 4096 * ((r.1 + r.2 + 4095) / 4096) - 4096 * (r.1 / 4096))

theorem pagesOf_of_dvd {r : Nat × Nat} (h : 4096 ∣ r.1 ∧ 4096 ∣ r.2) : pagesOf r = r := by
  obtain ⟨start, size⟩ := r
  obtain ⟨⟨j, hj⟩, k, hk⟩ := h
  unfold pagesOf
  dsimp only at hj hk ⊢
  rw [Prod.mk.injEq]
  omega

theorem pages_apart {ranges : List (Nat × Nat)} (hpages : ∀ r ∈ ranges, 4096 ∣ r.1 ∧ 4096 ∣ r.2)
    (hapart : ranges.Pairwise fun q r => ¬ Overlap q r) :
    ranges.Pairwise fun q r => ¬ Overlap (pagesOf q) (pagesOf r) := by
  refine hapart.imp_of_mem fun {q r} hq hr hnot => ?_
  rw [pagesOf_of_dvd (hpages q hq), pagesOf_of_dvd (hpages r hr)]
  exact hnot

namespace Counter

/-- Whole pages are asked for, and the counter does not wrap. -/
def WholePages (st : Counter) (act : Action) : Prop :=
  Below st act ∧
    match act with
    | .call _ size => 4096 ∣ size
    | _ => True

instance (st : Counter) (act : Action) : Decidable (WholePages st act) :=
  match act with
  | .call _ _ => inferInstanceAs (Decidable (_ ∧ _ ∣ _))
  | .exists _ _ | .create _ _ | .get _ _ | .set _ _ => inferInstanceAs (Decidable (_ ∧ True))

def PagedProgress : Progress → Prop
  | .idle | .creating => True
  | .reading size => 4096 ∣ size
  | .writing size res _ => 4096 ∣ size ∧ 4096 ∣ res

structure Paged (st : Counter) : Prop where
  inv : Inv st
  callers : ∀ c, PagedProgress (st.caller c)
  counter : ∀ n, st.zk .allocator = some n → ∃ k, k < 2 ^ 64 ∧ 4096 ∣ k ∧ n.data = decimal k
  returned : ∀ r ∈ st.returned, 4096 ∣ r.1 ∧ 4096 ∣ r.2

theorem initial_paged : Paged initial where
  inv := initial_inv
  callers _ := trivial
  counter n hn := by cases hn
  returned r hr := by cases hr

theorem decimal_inj {m n : Nat} (hm : m < 2 ^ 64) (hn : n < 2 ^ 64) (h : decimal m = decimal n) :
    m = n := by
  have hread := readDigits_decimal hm
  rw [h, readDigits_decimal hn, Option.some.injEq] at hread
  exact hread.symm

section Step

variable {st st' : Counter}

theorem Paged.read (h : Paged st) {n : ZNode} {res : Nat} (hget : st.zk.get .allocator = some n)
    (hres : stoul n.data = some res) : 4096 ∣ res := by
  rcases h.inv.node with hun | ⟨k, version, hw⟩
  · simp [Store.get, hun.node] at hget
  · obtain ⟨hget', hstoul⟩ := hw.get
    rw [hget', Option.some.injEq] at hget
    subst hget
    obtain ⟨k', hk', hdvd, hdata⟩ := h.counter _ hw.node
    rw [hstoul, Option.some.injEq] at hres
    rw [← hres, decimal_inj hw.high hk' hdata]
    exact hdvd

theorem callers_goto (h : ∀ c, PagedProgress (st.caller c)) {c : Nat} {progress : Progress}
    (hprogress : PagedProgress progress) (c' : Nat) :
    PagedProgress ((st.goto c progress).caller c') := by
  unfold goto
  by_cases hc : c' = c
  · subst hc
    dsimp only
    rwa [update_self]
  · dsimp only
    rw [update_of_ne hc]
    exact h c'

theorem Paged.step (h : Paged st) {act : Action} (hok : WholePages st act)
    (hstep : step st act = some st') : Paged st' := by
  have hinv := h.inv.step hok.1 hstep
  have hprogress := h.callers act.actor
  cases step_effect hstep hok.1 with
  | @moved progress hplain hsize =>
      refine ⟨hinv, callers_goto h.callers ?_, h.counter, h.returned⟩
      cases progress with
      | idle | creating => trivial
      | reading size =>
          rcases hsize size rfl with hcall | ⟨res, version, hcaller⟩
          · have hpages := hok.2
            rw [hcall] at hpages
            exact hpages
          · rw [hcaller] at hprogress
            exact hprogress.1
      | writing => exact absurd rfl (hplain _ _ _)
  | created =>
      refine ⟨hinv, callers_goto h.callers trivial, ?_, h.returned⟩
      rintro n ⟨⟩
      exact ⟨allocatableRangeStart, by decide, by decide, rfl⟩
  | read hcaller hread hres =>
      rw [hcaller] at hprogress
      exact ⟨hinv, callers_goto h.callers ⟨hprogress, h.read hread hres⟩, h.counter, h.returned⟩
  | @increased size res version n progress returned hcaller _ _ hbelow hnext hreturned =>
      rw [hcaller] at hprogress
      obtain ⟨hsize, hres⟩ := hprogress
      refine ⟨hinv, callers_goto h.callers ?_, ?_, ?_⟩
      · rcases hnext with rfl | rfl
        · trivial
        · exact hsize
      · rintro n ⟨⟩
        exact ⟨res + size, hbelow, Nat.dvd_add hres hsize, rfl⟩
      · intro r hr
        rcases hreturned with rfl | rfl
        · exact h.returned r hr
        · rcases List.mem_append.mp hr with hold | hnew
          · exact h.returned r hold
          · rw [List.mem_singleton.mp hnew]
            exact ⟨hres, hsize⟩

end Step

end Counter

/-- Without fault tolerance for the servers of any cluster, with it for any number of
callers at once. -/
theorem hints_on_pages {n : Nat} {st : Hints n} {counter : Counter}
    (hst : Reaches Hints.step Hints.WholePages (Hints.start n) st)
    (hcounter : Reaches Counter.step Counter.WholePages Counter.initial counter) :
    (∀ a ∈ st.hints, 4096 ∣ a) ∧
      (st.taken.Pairwise fun q r => ¬ Overlap (pagesOf q) (pagesOf r)) ∧
      (∀ r ∈ counter.returned, 4096 ∣ r.1) ∧
      counter.returned.Pairwise fun q r => ¬ Overlap (pagesOf q) (pagesOf r) := by
  have hinv := Hints.reaches_inv hst
  have hpaged : counter.Paged :=
    hcounter.invariant (fun _ _ _ h hok hstep => h.step hok hstep) Counter.initial_paged
  exact ⟨hinv.hints, pages_apart hinv.pages hinv.apart, fun r hr => (hpaged.returned r hr).1,
    pages_apart hpaged.returned hpaged.inv.apart⟩

/-- Two servers that take three blocks of whole pages, and the race for addresses. -/
theorem hints_on_pages_taken :
    (∃ st : Hints 2, Reaches Hints.step Hints.WholePages (Hints.start 2) st ∧
      st.taken = [(2 ^ 44 + 8192, 4096), (2 ^ 46, 4096), (2 ^ 44, 8192)] ∧
      st.taken.Pairwise fun q r => ¬ Overlap (pagesOf q) (pagesOf r)) ∧
    ∃ counter, Reaches Counter.step Counter.WholePages Counter.initial counter ∧
      counter.returned.length = 2 ∧ ∀ r ∈ counter.returned, 4096 ∣ r.1 := by
  have htaken : (checkedRun Hints.step Hints.WholePages (Hints.start 2)
      [(0, ⟨8192, none, some (2 ^ 44)⟩), (1, ⟨4096, none, some (2 ^ 46)⟩),
        (0, ⟨4096, none, some (2 ^ 45)⟩)]).map Hints.taken =
      some [(2 ^ 44 + 8192, 4096), (2 ^ 46, 4096), (2 ^ 44, 8192)] := by
    decide +kernel
  have hreturned : (checkedRun Counter.step Counter.WholePages Counter.initial
      Counter.raceForAddresses).map (fun counter => counter.returned.length) = some 2 := by
    decide +kernel
  obtain ⟨st, hst, hshape⟩ := reaches_of_map_checkedRun htaken
  obtain ⟨counter, hcounter, hlength⟩ := reaches_of_map_checkedRun hreturned
  obtain ⟨-, hpages, haligned, -⟩ := hints_on_pages hst hcounter
  exact ⟨⟨st, hst, hshape, hpages⟩, counter, hcounter, hlength, haligned⟩

/-- The second of five servers starts in the middle of a page. A block of 100 bytes
shares its page with the next one, on one server and through the counter. -/
theorem hints_off_pages :
    (∃ st : Hints 5, Reaches Hints.step anyAction (Hints.start 5) st ∧
      st.hints = [startAddress 5 1] ∧ startAddress 5 1 % 4096 = 819) ∧
    (∃ st : Hints 2, Reaches Hints.step anyAction (Hints.start 2) st ∧
      st.hints = [2 ^ 44, 2 ^ 44 + 100] ∧ st.taken = [(2 ^ 44 + 100, 4096), (2 ^ 44, 100)]) ∧
    (∃ counter, Reaches Counter.step Counter.Below Counter.initial counter ∧
      counter.returned = [(2 ^ 44, 100), (2 ^ 44 + 100, 4096)]) ∧
    Overlap (pagesOf (2 ^ 44, 100)) (pagesOf (2 ^ 44 + 100, 4096)) := by
  have hshare : (run Hints.step (Hints.start 5) [(1, ⟨4096, none, none⟩)]).map Hints.hints =
      some [startAddress 5 1] := by
    decide +kernel
  have htaken : (run Hints.step (Hints.start 2)
      [(0, ⟨100, none, some (2 ^ 44)⟩), (0, ⟨4096, none, some (2 ^ 44 + 4096)⟩)]).map
      (fun st => (st.hints, st.taken)) =
      some ([2 ^ 44, 2 ^ 44 + 100], [(2 ^ 44 + 100, 4096), (2 ^ 44, 100)]) := by
    decide +kernel
  have hreturned : (checkedRun Counter.step Counter.Below Counter.initial
      [.exists 0 false, .create 0 .answered, .call 0 100, .get 0 false, .set 0 .answered,
        .call 1 4096, .get 1 false, .set 1 .answered]).map Counter.returned =
      some [(2 ^ 44, 100), (2 ^ 44 + 100, 4096)] := by
    decide +kernel
  obtain ⟨st, hst, hhints⟩ := reaches_of_map_run hshare
  obtain ⟨st', hst', hblocks⟩ := reaches_of_map_run htaken
  obtain ⟨counter, hcounter, hranges⟩ := reaches_of_map_checkedRun hreturned
  rw [Prod.mk.injEq] at hblocks
  exact ⟨⟨st, hst, hhints, by decide⟩, ⟨st', hst', hblocks⟩, ⟨counter, hcounter, hranges⟩,
    by decide⟩

end RdmaMigration.Coordinator
