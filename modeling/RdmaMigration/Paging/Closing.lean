import RdmaMigration.Paging.Counting

/-! # When a segment is closed

`close` lifts the protection of the whole segment, makes one pass over the table
that skips the pages other threads have claimed, and then tells the source that
it may free the memory. Called by `PullAllPages` it finds all pages local; called
by the application it waits for no prefetcher and no fault handler.
-/

namespace RdmaMigration.Paging.Threads

open Lib

def AllLocal (p : Pages) : Prop := ∀ state ∈ p.pages, state = .local

instance (p : Pages) : Decidable (AllLocal p) := inferInstanceAs (Decidable (∀ _ ∈ _, _))

section Turn

variable {cfg : Config} {s s' : State} {t t' : Thread} {effect : Effect} {choice : Choice}

/-- Only the check of `PullAllPages` moves a thread into another function. -/
theorem Turned.call (h : Turned cfg s t choice t' effect) :
    t'.call = t.call ∨
      (s.pages.numPages ≤ s.pages.localPages ∧ t'.call = .close true) := by
  cases h with
  | checked _ hle => exact .inr ⟨hle, rfl⟩
  | _ => exact .inl rfl

theorem Turned.spawned {u : Thread} (h : Turned cfg s t choice t' (.spawn u)) :
    ∃ l, u.call = .markPageLocalCB l := by
  cases h with
  | posted => exact ⟨_, rfl⟩

theorem apply_allLocal {i : Nat} (hall : AllLocal s.pages) (hbooks : Books s t t' effect)
    (h : (s.setThread i t').apply effect = some s') : AllLocal s'.pages := by
  cases effect with
  | none | add l | release l | read a n | spawn u | count =>
      cases h
      exact hall
  | protect a n =>
      obtain ⟨_, -, rfl⟩ := Option.map_eq_some_iff.mp h
      exact hall
  | claim a => cases hall _ (List.mem_of_getElem? hbooks.1)
  | store a =>
      obtain ⟨_, -, rfl⟩ := Option.map_eq_some_iff.mp h
      intro state hstate
      rcases List.mem_or_eq_of_mem_set hstate with hstate | rfl
      · exact hall state hstate
      · rfl

theorem apply_shape {i : Nat} (h : (s.setThread i t').apply effect = some s') :
    s'.pages.numPages = s.pages.numPages ∧ s'.pages.pages.length = s.pages.pages.length := by
  cases effect with
  | none | add l | release l | read a n | spawn u | count =>
      cases h
      exact ⟨rfl, rfl⟩
  | claim a =>
      cases h
      exact ⟨rfl, List.length_set⟩
  | protect a n =>
      obtain ⟨_, -, rfl⟩ := Option.map_eq_some_iff.mp h
      exact ⟨rfl, rfl⟩
  | store a =>
      obtain ⟨_, -, rfl⟩ := Option.map_eq_some_iff.mp h
      exact ⟨rfl, List.length_set⟩

theorem apply_threads {i : Nat} (h : (s.setThread i t').apply effect = some s') :
    ((∀ u, effect ≠ .spawn u) ∧ s'.threads = s.threads.set i t') ∨
      ∃ u, effect = .spawn u ∧ s'.threads = s.threads.set i t' ++ [u] := by
  cases effect with
  | none | add l | release l | read a n | claim a | count =>
      cases h
      exact .inl ⟨fun u hu => (nomatch hu), rfl⟩
  | protect a n | store a =>
      obtain ⟨_, -, rfl⟩ := Option.map_eq_some_iff.mp h
      exact .inl ⟨fun u hu => (nomatch hu), rfl⟩
  | spawn u =>
      cases h
      exact .inr ⟨u, rfl, rfl⟩

end Turn

/-! ## The invariant -/

/-- `n` is the number of pages. `which` are the calls of `close` that find all of them
local: those of `PullAllPages` (`true`), those of the application (`false`). -/
structure ClosingInv (n : Nat) (which : Bool → Prop) (s : State) : Prop where
  base : Inv s
  numPages : s.pages.numPages = n
  length : s.pages.pages.length = n
  closers : ∀ t ∈ s.threads, ∀ b, t.call = .close b → which b → AllLocal s.pages

/-- The counter can only reach the number of pages when all of them are local. -/
theorem ClosingInv.allLocal {n : Nat} {which : Bool → Prop} {s : State}
    (hi : ClosingInv n which s) (hle : s.pages.numPages ≤ s.pages.localPages) :
    AllLocal s.pages := by
  intro state hstate
  have hcounted := hi.base.counted
  have hnum := hi.numPages
  have hlength := hi.length
  have hall : s.pages.pages.length ≤ s.pages.pages.countP (· = .local) := by omega
  exact of_decide_eq_true (all_of_length_le_countP hall hstate)

section Step

variable {cfg : Config} {n : Nat} {which : Bool → Prop} {s s' : State}

theorem turn_closing {i : Nat} {choice : Choice} (hi : ClosingInv n which s)
    (h : step cfg s (.turn i choice) = some s') : ClosingInv n which s' := by
  have hbase := step_inv hi.base h
  obtain ⟨t, t', effect, ht, hturn, happly⟩ := turn_cases h
  have hmem := List.mem_of_getElem? ht
  obtain ⟨hbooks, -⟩ := hturn.books (hi.base.tidy t hmem)
  obtain ⟨hnum, hlen⟩ := apply_shape happly
  refine ⟨hbase, hnum.trans hi.numPages, hlen.trans hi.length, ?_⟩
  have hset : ∀ u ∈ s.threads.set i t', ∀ b, u.call = .close b → which b →
      AllLocal s'.pages := by
    intro u hu b hcall hwhich
    refine apply_allLocal ?_ hbooks happly
    rcases List.mem_or_eq_of_mem_set hu with hu | rfl
    · exact hi.closers u hu b hcall hwhich
    · rcases hturn.call with hsame | ⟨hle, -⟩
      · exact hi.closers t hmem b (hsame.symm.trans hcall) hwhich
      · exact hi.allLocal hle
  intro u hu b hcall hwhich
  rcases apply_threads happly with ⟨-, hthreads⟩ | ⟨v, rfl, hthreads⟩
  · rw [hthreads] at hu
    exact hset u hu b hcall hwhich
  · rw [hthreads] at hu
    rcases List.mem_append.mp hu with hu | hu
    · exact hset u hu b hcall hwhich
    · obtain ⟨l, hl⟩ := hturn.spawned
      rw [List.mem_singleton.mp hu, hl] at hcall
      cases hcall

theorem spawn_closing (hi : ClosingInv n which s) {u : Thread} (hfree : u.control.Free)
    (hclose : ∀ b, u.call = .close b → which b → AllLocal s.pages) :
    ClosingInv n which (s.spawn u) := by
  refine ⟨hi.base.spawn hfree, hi.numPages, hi.length, ?_⟩
  intro v hv b hcall hwhich
  rcases List.mem_append.mp hv with hv | hv
  · exact hi.closers v hv b hcall hwhich
  · rw [List.mem_singleton.mp hv] at hcall
    exact hclose b hcall hwhich

theorem malloc_closing (hi : ClosingInv n which s) (content : Int) :
    ClosingInv n which (s.malloc content) :=
  ⟨hi.base.congr rfl rfl, hi.numPages, hi.length, hi.closers⟩

theorem request_closing (hi : ClosingInv n which s) {r : Request}
    (hclose : r = .close → which false → AllLocal s.pages) :
    ClosingInv n which (s.request r) := by
  cases r with
  | pullAllPagesWithoutClose | pullPagesSync | pullAllPages =>
      exact spawn_closing hi trivial fun b hcall => by cases hcall
  | pullAllPagesWithoutCloseAsync content =>
      exact spawn_closing (malloc_closing hi content) trivial fun b hcall => by cases hcall
  | pullPagesAsync size limit content =>
      exact spawn_closing (malloc_closing hi content) trivial fun b hcall => by cases hcall
  | close =>
      refine spawn_closing hi trivial ?_
      intro b hcall hwhich
      cases hcall
      exact hclose rfl hwhich

theorem step_closing {act : Action} (hi : ClosingInv n which s)
    (hclose : act = .call .close → which false → AllLocal s.pages)
    (h : step cfg s act = some s') : ClosingInv n which s' := by
  cases act with
  | fault a =>
      simp only [step, Option.ite_none_right_eq_some, Option.some.injEq] at h
      obtain ⟨-, rfl⟩ := h
      exact spawn_closing hi trivial fun b hcall => by cases hcall
  | call r =>
      cases h
      exact request_closing hi fun hr => hclose (by rw [hr])
  | turn i choice => exact turn_closing hi h

end Step

/-! ## A received segment -/

section Received

variable {cfg : Config} {start size : Nat} {accessible : Nat → Bool} {limiter : Nat → Int}
  {s₀ s : State}

theorem received_closing (which : Bool → Prop)
    (h : received start size accessible limiter = some s₀)
    (hfew : pageCount size defaultPageSize < 2 ^ 31) :
    ClosingInv (pageCount size defaultPageSize) which s₀ := by
  have hbase := received_inv h
  simp only [received, Option.bind_eq_bind, Option.bind_eq_some_iff, Option.pure_def,
    Option.some.injEq] at h
  obtain ⟨pages, hpages, accessible', -, rfl⟩ := h
  obtain ⟨-, -, -, -, -, hnum, hstates, -⟩ := construct_eq_some hpages
  rw [toInt32_of_lt hfew] at hnum
  refine ⟨hbase, hnum, ?_, fun t ht => by cases ht⟩
  dsimp only
  rw [hstates, List.length_replicate, hnum, Int.toNat_natCast]

theorem ClosingInv.page {n : Nat} {which : Bool → Prop} (hi : ClosingInv n which s)
    (hall : AllLocal s.pages) {k : Nat} (hk : k < n) : s.pages.pages[k]? = some .local := by
  have hlt : k < s.pages.pages.length := by
    rw [hi.length]
    exact hk
  rw [List.getElem?_eq_getElem hlt, hall _ (List.getElem_mem hlt)]

def turns (i n : Nat) : List Action := List.replicate n (.turn i (.step false))

def fetch (i : Nat) : List Action := [.turn i (.read true), .turn i .complete]

def closingAt (fromPullAllPages : Bool) (control : Control) (s : State) : Bool :=
  s.threads.any fun t => t.call = .close fromPullAllPages ∧ t.control = control

theorem exists_of_closingAt {b : Bool} {control : Control} {s : State}
    (h : closingAt b control s = true) :
    ∃ t ∈ s.threads, t.call = .close b ∧ t.control = control := by
  obtain ⟨t, ht, hfacts⟩ := List.any_eq_true.mp h
  exact ⟨t, ht, of_decide_eq_true hfacts⟩

/-- Whatever calls, faults, failed pulls and spurious failures there are. -/
theorem pull_all_pages_closes_fetched (cfg : Config)
    (hfew : pageCount size defaultPageSize < 2 ^ 31)
    (h₀ : received start size accessible limiter = some s₀)
    (h : Reaches (step cfg) anyAction s₀ s) :
    s.pages.localPages ≤ s.pages.pages.countP (· = .local) ∧
    ∀ t ∈ s.threads, t.call = .close true → t.control = .opening →
      ∀ k < pageCount size defaultPageSize, s.pages.pages[k]? = some .local := by
  have hi : ClosingInv (pageCount size defaultPageSize) (· = true) s :=
    h.invariant (fun _ _ _ hi _ hstep => step_closing hi (fun _ hfalse => (nomatch hfalse)) hstep)
      (received_closing _ h₀ hfew)
  constructor
  · have hcounted := hi.base.counted
    omega
  · intro t ht hcall _ k hk
    exact hi.page (hi.closers t ht true hcall rfl) hk

/-- Two pages: the first one is fetched by a fault handler while `PullAllPages` fetches
the second; its first check comes too early. -/
theorem pull_all_pages_closes_fetched_two : ∃ s₀ s,
    received (2 ^ 44) 8192 (fun _ => true) (fun _ => 0) = some s₀ ∧
    Reaches (step ⟨true, false, 1⟩) anyAction s₀ s ∧
    (∃ t ∈ s.threads, t.call = .close true ∧ t.control = .opening) ∧
    ∀ k < pageCount 8192 defaultPageSize, s.pages.pages[k]? = some .local := by
  have hrun : ((received (2 ^ 44) 8192 (fun _ => true) (fun _ => 0)).bind fun s₀ =>
      run (step ⟨true, false, 1⟩) s₀ ([.call .pullAllPages, .fault (2 ^ 44 + 5)] ++ turns 1 1 ++
        turns 0 7 ++ fetch 0 ++ turns 0 6 ++ fetch 1 ++ turns 1 4 ++ turns 0 7)).map
      (closingAt true .opening) = some true := by
    decide +kernel
  obtain ⟨s, hs, hclosing⟩ := Option.map_eq_some_iff.mp hrun
  obtain ⟨s₀, h₀, hacts⟩ := Option.bind_eq_some_iff.mp hs
  have hreach := reaches_of_run hacts
  obtain ⟨t, ht, hcall, hcontrol⟩ := exists_of_closingAt hclosing
  exact ⟨s₀, s, h₀, hreach, ⟨t, ht, hcall, hcontrol⟩,
    (pull_all_pages_closes_fetched _ (by decide) h₀ hreach).2 t ht hcall hcontrol⟩

/-- The application closes only when it knows all pages to be local. -/
def ClosesFetched (s : State) (act : Action) : Prop :=
  act = .call .close → AllLocal s.pages

instance (s : State) (act : Action) : Decidable (ClosesFetched s act) :=
  inferInstanceAs (Decidable (_ → _))

/-- Besides the prefetcher that `on_transfer` has started, any calls of `PullAllPages`
and the other pullers. -/
theorem close_gives_up_fetched {cfg : Config} (hfew : pageCount size defaultPageSize < 2 ^ 31)
    (h₀ : received start size accessible limiter = some s₀) (async : Bool) (content : Int)
    (h : Reaches (step cfg) ClosesFetched (s₀.request (prefetcher async content)) s) :
    ∀ t ∈ s.threads, ∀ b, t.call = .close b →
      (t.control = .sending →
        ∀ k < pageCount size defaultPageSize, s.pages.pages[k]? = some .local) ∧
      ∀ k < pageCount size defaultPageSize, s.pages.pages[k]? ≠ some .local →
        ∀ a, Covers (start + defaultPageSize * k, defaultPageSize) a → s.accessible a = false := by
  have hstart : ClosingInv (pageCount size defaultPageSize) (fun _ => True)
      (s₀.request (prefetcher async content)) := by
    refine request_closing (received_closing _ h₀ hfew) ?_
    cases async <;> exact fun hr => (nomatch hr)
  have hi := h.invariant
    (fun _ _ _ hi hok hstep => step_closing hi (fun hact _ => hok hact) hstep) hstart
  intro t ht b hcall
  have hall := hi.closers t ht b hcall trivial
  refine ⟨fun _ k hk => hi.page hall hk, ?_⟩
  intro k hk hnot
  exact absurd (hi.page hall hk) hnot

/-- One page, fetched by the prefetcher before the application closes. -/
theorem close_gives_up_fetched_one : ∃ s₀ s,
    received (2 ^ 44) 4096 (fun _ => true) (fun _ => 0) = some s₀ ∧
    Reaches (step ⟨true, false, 1⟩) ClosesFetched (s₀.request (prefetcher false 0)) s ∧
    (∃ t ∈ s.threads, t.call = .close false ∧ t.control = .sending) ∧
    ∀ k < pageCount 4096 defaultPageSize, s.pages.pages[k]? = some .local := by
  have hrun : ((received (2 ^ 44) 4096 (fun _ => true) (fun _ => 0)).bind fun s₀ =>
      checkedRun (step ⟨true, false, 1⟩) ClosesFetched (s₀.request (prefetcher false 0))
        (turns 0 4 ++ fetch 0 ++ turns 0 3 ++ [.call .close] ++ turns 1 5)).map
      (closingAt false .sending) = some true := by
    decide +kernel
  obtain ⟨s, hs, hclosing⟩ := Option.map_eq_some_iff.mp hrun
  obtain ⟨s₀, h₀, hacts⟩ := Option.bind_eq_some_iff.mp hs
  have hreach := reaches_of_checkedRun hacts
  obtain ⟨t, ht, hcall, hcontrol⟩ := exists_of_closingAt hclosing
  exact ⟨s₀, s, h₀, hreach, ⟨t, ht, hcall, hcontrol⟩,
    (close_gives_up_fetched (by decide) h₀ false 0 hreach t ht false hcall).1 hcontrol⟩

/-- The prefetcher has read the first of two pages and not yet stored its state. `close`
opens the segment, so that the second page, of which nothing has been read, is open to
the application; it passes over the first page, fetches the second and sends. -/
theorem close_gives_up_unfetched : ∃ s₀ s s',
    received (2 ^ 44) 8192 (fun _ => true) (fun _ => 0) = some s₀ ∧
    Reaches (step ⟨true, false, 1⟩) anyAction (s₀.request (prefetcher false 0)) s ∧
    (∃ t ∈ s.threads, t.call = .close false ∧ t.control = .copying []) ∧
    s.pages.pages[1]? = some .remote ∧ s.accessible (2 ^ 44 + 4096) = true ∧
    Reaches (step ⟨true, false, 1⟩) anyAction s s' ∧
    (∃ t ∈ s'.threads, t.call = .close false ∧ t.control = .sending) ∧
    s'.pages.pages[0]? = some .inFlight ∧ s'.accessible (2 ^ 44) = true := by
  have hrun : ((received (2 ^ 44) 8192 (fun _ => true) (fun _ => 0)).bind fun s₀ =>
      (run (step ⟨true, false, 1⟩) (s₀.request (prefetcher false 0))
        (turns 0 5 ++ fetch 0 ++ [.call .close] ++ turns 1 1)).bind fun s =>
      (run (step ⟨true, false, 1⟩) s (turns 1 7 ++ fetch 1 ++ turns 1 5)).map fun s' =>
        (s₀, s, s')).map
      (fun x => ((closingAt false (.copying []) x.2.1, x.2.1.pages.pages[1]?,
        x.2.1.accessible (2 ^ 44 + 4096)), closingAt false .sending x.2.2,
        x.2.2.pages.pages[0]?, x.2.2.accessible (2 ^ 44))) =
      some ((true, some .remote, true), true, some .inFlight, true) := by
    decide +kernel
  obtain ⟨⟨s₀, s, s'⟩, hs, hfacts⟩ := Option.map_eq_some_iff.mp hrun
  obtain ⟨_, h₀, hs⟩ := Option.bind_eq_some_iff.mp hs
  obtain ⟨_, hacts, hs⟩ := Option.bind_eq_some_iff.mp hs
  obtain ⟨_, hacts', heq⟩ := Option.map_eq_some_iff.mp hs
  cases heq
  simp only [Prod.mk.injEq] at hfacts
  obtain ⟨⟨hopen, hremote, hbyte⟩, hsending, hlast⟩ := hfacts
  exact ⟨s₀, s, s', h₀, reaches_of_run hacts, exists_of_closingAt hopen, hremote, hbyte,
    reaches_of_run hacts', exists_of_closingAt hsending, hlast⟩

end Received

end RdmaMigration.Paging.Threads
