import RdmaMigration.Paging.Geometry
import RdmaMigration.Paging.Safety
import RdmaMigration.Paging.Threads

/-! # `local_pages` never runs ahead of the page states

A page is held by at most one thread, from the compare-and-exchange it has won to
its store of `Local`; between the store and the `fetch_add` the thread owes the
counter one. So the counter and what is owed to it add up to the pages in state
`Local`, and `PullAllPages`, which compares the counter with the number of pages,
calls `close` only when all of them are local.
-/

namespace RdmaMigration.Paging.Threads

open Lib

/-! ## What a thread holds and owes -/

/-- A page is stored once, after its read, and counted once after that; a callback
lowers its limiter once. -/
def Tidy : List Atomic → Prop
  | [] => True
  | .post :: rest => .store ∈ rest ∧ Tidy rest
  | .store :: rest => .store ∉ rest ∧ .count ∈ rest ∧ .post ∉ rest ∧ .await ∉ rest ∧ Tidy rest
  | .count :: rest => .store ∉ rest ∧ .count ∉ rest ∧ Tidy rest
  | .release l :: rest => .release l ∉ rest ∧ Tidy rest
  | .await :: rest | .protect :: rest => Tidy rest

theorem Tidy.tail {op : Atomic} {rest : List Atomic} (h : Tidy (op :: rest)) : Tidy rest := by
  cases op with
  | post => exact h.2
  | await | protect => exact h
  | store => exact h.2.2.2.2
  | count => exact h.2.2
  | release l => exact h.2

theorem Call.ops_tidy (c : Call) : Tidy c.ops := by
  cases c <;>
    simp [Call.ops, Paging.sigsegvAdvance, pullPage, markPageLocal, Tidy]

theorem markPageLocalCB_tidy (l : Nat) : Tidy (.await :: markPageLocalCB l) := by
  simp [markPageLocalCB, Tidy]

namespace Thread

def Tidy (t : Thread) : Prop :=
  ∀ address size ops next, t.control = .working address size ops next → Threads.Tidy ops

/-- The page that the thread has set to `InFlight` and will set to `Local`. -/
def holding (t : Thread) : Option Nat :=
  match t.control with
  | .posting address _ _ => some address
  | .working address _ ops _ => if .store ∈ ops then some address else none
  | _ => none

/-- The thread has stored `Local` and not yet counted the page. -/
def owing (t : Thread) : Bool :=
  match t.control with
  | .working _ _ ops _ => .store ∉ ops ∧ .count ∈ ops
  | _ => false

def holds (p : Pages) (k : Nat) (t : Thread) : Bool := t.holding.any fun a => entry p a = k

end Thread

def Books (s : State) (t t' : Thread) : Effect → Prop
  | .claim a => s.pages.at? (s.pages.pageId a) = some .remote ∧ t.holding = none ∧
      t'.holding = some a ∧ t.owing = false ∧ t'.owing = false
  | .store a => t.holding = some a ∧ t'.holding = none ∧ t.owing = false ∧ t'.owing = true
  | .count => t.holding = none ∧ t'.holding = none ∧ t.owing = true ∧ t'.owing = false
  | .spawn u => t'.holding = none ∧ u.holding = t.holding ∧ t.owing = false ∧
      t'.owing = false ∧ u.owing = false ∧ u.Tidy
  | .none | .protect _ _ | .add _ | .release _ | .read _ _ =>
      (t'.holding = t.holding ∨ t'.holding = none) ∧ t'.owing = t.owing

def Control.Free : Control → Prop
  | .posting _ _ _ | .working _ _ _ _ => False
  | _ => True

theorem resume_free (next : Option Cursor) : (resume next).Free := by
  cases next <;> trivial

theorem Call.afterLoop_free (c : Call) : c.afterLoop.Free := by
  cases c <;> trivial

section Books

variable {s : State} {t t' : Thread} {address size : Nat} {op : Atomic} {ops rest : List Atomic}
  {next : Option Cursor}

theorem Thread.holding_of_free (h : t.control.Free) : t.holding = none := by
  unfold holding
  split
  next heq => simp [heq, Control.Free] at h
  next heq => simp [heq, Control.Free] at h
  next => rfl

theorem Thread.owing_of_free (h : t.control.Free) : t.owing = false := by
  unfold owing
  split
  next heq => simp [heq, Control.Free] at h
  next => rfl

theorem Thread.tidy_of_free (h : t.control.Free) : t.Tidy := by
  intro address size ops next heq
  simp [heq, Control.Free] at h

theorem Thread.holding_working (h : t.control = .working address size ops next) :
    t.holding = if .store ∈ ops then some address else none := by
  rw [Thread.holding, h]

theorem Thread.owing_working (h : t.control = .working address size ops next) :
    t.owing = decide (.store ∉ ops ∧ .count ∈ ops) := by
  rw [Thread.owing, h]

theorem Thread.tidy_working (h : t.control = .working address size ops next)
    (hops : Threads.Tidy ops) : t.Tidy := by
  intro a n ops' next' heq
  rw [h] at heq
  cases heq
  exact hops

theorem books_of_free {c : Control} (hfree : t.control.Free) (hc : c.Free) :
    (((t.goto c).holding = t.holding ∨ (t.goto c).holding = none) ∧
      (t.goto c).owing = t.owing) ∧ (t.goto c).Tidy :=
  ⟨⟨.inr (Thread.holding_of_free hc), by
    rw [Thread.owing_of_free hfree, Thread.owing_of_free hc]⟩, Thread.tidy_of_free hc⟩

theorem books_of_other (htidy : t.Tidy) (h : t.control = .working address size (op :: rest) next)
    (hstore : op ≠ .store) (hcount : op ≠ .count) :
    (((t.goto (.working address size rest next)).holding = t.holding ∨
        (t.goto (.working address size rest next)).holding = none) ∧
      (t.goto (.working address size rest next)).owing = t.owing) ∧
      (t.goto (.working address size rest next)).Tidy := by
  have hs : Atomic.store ∈ op :: rest ↔ Atomic.store ∈ rest := by
    simp [Ne.symm hstore]
  have hc : Atomic.count ∈ op :: rest ↔ Atomic.count ∈ rest := by
    simp [Ne.symm hcount]
  refine ⟨⟨.inl ?_, ?_⟩, Thread.tidy_working rfl (htidy _ _ _ _ h).tail⟩
  · rw [Thread.holding_working h, Thread.holding_working rfl]
    simp only [hs]
  · rw [Thread.owing_working h, Thread.owing_working rfl]
    simp only [hs, hc]

theorem books_of_thrown (hcontrol : t.owing = false) :
    (((t.goto .thrown).holding = t.holding ∨ (t.goto .thrown).holding = none) ∧
      (t.goto .thrown).owing = t.owing) ∧ (t.goto .thrown).Tidy :=
  ⟨⟨.inr rfl, hcontrol.symm⟩, Thread.tidy_of_free trivial⟩

end Books

theorem Turned.books {cfg : Config} {s : State} {t t' : Thread} {effect : Effect}
    {choice : Choice} (htidy : t.Tidy) (h : Turned cfg s t choice t' effect) :
    Books s t t' effect ∧ t'.Tidy := by
  have hfree : ∀ {c : Control}, t.control = c → c.Free → t.control.Free := by
    intro c hc hfree
    rw [hc]
    exact hfree
  cases h with
  | opened h hc =>
      rcases hc with rfl | rfl <;> exact books_of_free (hfree h trivial) trivial
  | copied h | begun h | skipped h | outOfRange h | queued h | chosen h | admitted h | added h
  | raised h | rechecked h | left h | done h =>
      exact books_of_free (hfree h trivial) trivial
  | ended h => exact books_of_free (hfree h trivial) t.call.afterLoop_free
  | lost h => exact books_of_free (hfree h trivial) (resume_free _)
  | spun h | waited h => exact ⟨⟨.inl rfl, rfl⟩, htidy⟩
  | checked h =>
      have hnone := Thread.owing_of_free (hfree h trivial)
      exact ⟨⟨.inr rfl, hnone.symm⟩, Thread.tidy_of_free trivial⟩
  | wonAsync h hremote =>
      have hbefore := hfree h trivial
      exact ⟨⟨hremote, Thread.holding_of_free hbefore, rfl, Thread.owing_of_free hbefore, rfl⟩,
        fun _ _ _ _ heq => by cases heq⟩
  | wonSync h hremote =>
      have hbefore := hfree h trivial
      have hstore : Atomic.store ∈ t.call.ops := by
        cases t.call <;> simp [Call.ops, Paging.sigsegvAdvance, pullPage, markPageLocal]
      refine ⟨⟨hremote, Thread.holding_of_free hbefore, ?_, Thread.owing_of_free hbefore, ?_⟩,
        Thread.tidy_working rfl t.call.ops_tidy⟩
      · rw [Thread.holding_working rfl, if_pos hstore]
      · rw [Thread.owing_working rfl]
        exact decide_eq_false fun hnot => hnot.1 hstore
  | posted h =>
      have howing : t.owing = false := by rw [Thread.owing, h]
      refine ⟨⟨Thread.holding_of_free (resume_free _), ?_, howing,
        Thread.owing_of_free (resume_free _), ?_, ?_⟩, Thread.tidy_of_free (resume_free _)⟩
      · simp [callback, Thread.holding, h, markPageLocalCB]
      · rw [callback, Thread.owing_working rfl]
        simp [markPageLocalCB]
      · exact Thread.tidy_working rfl (markPageLocalCB_tidy _)
  | refusedAsync h => exact books_of_thrown (by rw [Thread.owing, h])
  | refused h =>
      refine books_of_thrown ?_
      rw [Thread.owing_working h]
      exact decide_eq_false fun hnot =>
        hnot.1 (List.mem_cons_of_mem _ (htidy _ _ _ _ h).1)
  | sent h | completed h | unprotected h | released h =>
      exact books_of_other htidy h (by simp) (by simp)
  | ignored h =>
      -- the read is neither posted nor awaited
      have hsent := books_of_other htidy h (by simp) (by simp)
      have hdone := books_of_other hsent.2 rfl (by simp) (by simp)
      obtain ⟨⟨hholding, howing⟩, -⟩ := hsent
      obtain ⟨⟨hholding', howing'⟩, htidy'⟩ := hdone
      refine ⟨⟨?_, howing'.trans howing⟩, htidy'⟩
      rcases hholding' with hsame | hnone
      · exact hholding.imp hsame.trans hsame.trans
      · exact .inr hnone
  | stored h =>
      obtain ⟨hstore, hcount, -, -, hrest⟩ := htidy _ _ _ _ h
      refine ⟨⟨?_, ?_, ?_, ?_⟩, Thread.tidy_working rfl hrest⟩
      · rw [Thread.holding_working h, if_pos List.mem_cons_self]
      · rw [Thread.holding_working rfl, if_neg hstore]
      · rw [Thread.owing_working h]
        exact decide_eq_false fun hnot => hnot.1 List.mem_cons_self
      · rw [Thread.owing_working rfl]
        exact decide_eq_true ⟨hstore, hcount⟩
  | @counted _ _ _ rest _ h =>
      obtain ⟨hstore, hcount, hrest⟩ := htidy _ _ _ _ h
      have hstore' : Atomic.store ∉ Atomic.count :: rest := by simpa using hstore
      refine ⟨⟨?_, ?_, ?_, ?_⟩, Thread.tidy_working rfl hrest⟩
      · rw [Thread.holding_working h, if_neg hstore']
      · rw [Thread.holding_working rfl, if_neg hstore]
      · rw [Thread.owing_working h]
        exact decide_eq_true ⟨hstore', List.mem_cons_self⟩
      · rw [Thread.owing_working rfl]
        exact decide_eq_false fun hnot => hcount hnot.2
  | finished h =>
      refine ⟨⟨.inr (Thread.holding_of_free (resume_free _)), ?_⟩,
        Thread.tidy_of_free (resume_free _)⟩
      rw [Thread.owing_of_free (resume_free _), Thread.owing_working h]
      exact (decide_eq_false fun hnot => by cases hnot.2).symm

/-! ## The invariant -/

/-- `held` for every entry of the table: at most one thread holds it, and only while
it is `InFlight`. -/
structure Inv (s : State) : Prop where
  tidy : ∀ t ∈ s.threads, t.Tidy
  held : ∀ k, s.threads.countP (Thread.holds s.pages k) ≤ 1 ∧
    (0 < s.threads.countP (Thread.holds s.pages k) → s.pages.pages[k]? = some .inFlight)
  counted : s.pages.localPages + s.threads.countP Thread.owing =
    s.pages.pages.countP (· = .local)

theorem Thread.holds_none {p : Pages} {k : Nat} {t : Thread} (h : t.holding = none) :
    t.holds p k = false := by
  rw [Thread.holds, h, Option.any_none]

theorem Thread.holds_some {p : Pages} {k a : Nat} {t : Thread} (h : t.holding = some a) :
    t.holds p k = decide (entry p a = k) := by
  rw [Thread.holds, h, Option.any_some]

section Step

variable {cfg : Config} {s s' : State} {i : Nat} {t t' : Thread}

theorem Inv.tidy_set (hi : Inv s) (htidy : t'.Tidy) : ∀ u ∈ s.threads.set i t', u.Tidy := by
  intro u hu
  rcases List.mem_or_eq_of_mem_set hu with hu | rfl
  · exact hi.tidy u hu
  · exact htidy

theorem Inv.keep (hi : Inv s) (ht : s.threads[i]? = some t) (htidy : t'.Tidy)
    (hholding : t'.holding = t.holding ∨ t'.holding = none) (howing : t'.owing = t.owing) :
    Inv (s.setThread i t') := by
  have hle : ∀ k, (s.threads.set i t').countP (Thread.holds s.pages k) ≤
      s.threads.countP (Thread.holds s.pages k) := by
    intro k
    have hadd := countP_set_add (Thread.holds s.pages k) ht t'
    have htest : tally (t'.holds s.pages k) ≤ tally (t.holds s.pages k) := by
      rcases hholding with heq | hnone
      · rw [Thread.holds, Thread.holds, heq]
      · rw [Thread.holds_none hnone]
        exact Nat.zero_le _
    omega
  refine ⟨?_, ?_, ?_⟩
  · exact hi.tidy_set htidy
  · intro k
    have hk := hi.held k
    exact ⟨Nat.le_trans (hle k) hk.1, fun hpos => hk.2 (Nat.lt_of_lt_of_le hpos (hle k))⟩
  · show s.pages.localPages + ((s.threads.set i t').countP Thread.owing : Nat) = _
    rw [countP_set_same Thread.owing ht howing]
    exact hi.counted

theorem Inv.spawn (hi : Inv s) {u : Thread} (hu : u.control.Free) : Inv (s.spawn u) := by
  refine ⟨?_, ?_, ?_⟩
  · intro v hv
    rcases List.mem_append.mp hv with hv | hv
    · exact hi.tidy v hv
    · rw [List.mem_singleton.mp hv]
      exact Thread.tidy_of_free hu
  · intro k
    show (s.threads ++ [u]).countP _ ≤ 1 ∧ (0 < (s.threads ++ [u]).countP _ → _)
    rw [countP_concat, Thread.holds_none (Thread.holding_of_free hu)]
    exact hi.held k
  · show s.pages.localPages + (((s.threads ++ [u]).countP Thread.owing : Nat) : Int) = _
    rw [countP_concat, Thread.owing_of_free hu]
    exact hi.counted

/-- The callback takes over the page of the thread that posted its read. -/
theorem Inv.handOver (hi : Inv s) (ht : s.threads[i]? = some t) {u : Thread} (htidy : t'.Tidy)
    (hu : u.Tidy) (hholding : t'.holding = none) (hsame : u.holding = t.holding)
    (howing : t.owing = false) (howing' : t'.owing = false) (hu' : u.owing = false) :
    Inv ((s.setThread i t').spawn u) := by
  refine ⟨?_, ?_, ?_⟩
  · intro v hv
    rcases List.mem_append.mp hv with hv | hv
    · exact hi.tidy_set htidy v hv
    · rw [List.mem_singleton.mp hv]
      exact hu
  · intro k
    have hadd := countP_set_add (Thread.holds s.pages k) ht t'
    rw [Thread.holds_none hholding, tally_false, Nat.add_zero] at hadd
    have hu_t : u.holds s.pages k = t.holds s.pages k := by rw [Thread.holds, Thread.holds, hsame]
    show (s.threads.set i t' ++ [u]).countP (Thread.holds s.pages k) ≤ 1 ∧
      (0 < (s.threads.set i t' ++ [u]).countP (Thread.holds s.pages k) → _)
    rw [countP_concat, hu_t, hadd]
    exact hi.held k
  · show s.pages.localPages + (((s.threads.set i t' ++ [u]).countP Thread.owing : Nat) : Int) = _
    rw [countP_concat, hu', countP_set_same Thread.owing ht (howing'.trans howing.symm)]
    exact hi.counted

theorem Inv.claim (hi : Inv s) (ht : s.threads[i]? = some t) {a : Nat} (htidy : t'.Tidy)
    (hremote : s.pages.at? (s.pages.pageId a) = some .remote) (hfree : t.holding = none)
    (hholding : t'.holding = some a) (howing : t.owing = false) (howing' : t'.owing = false) :
    Inv { s.setThread i t' with
      pages := s.pages.store (s.pages.pageId a) .inFlight } := by
  have hentry : s.pages.pages[entry s.pages a]? = some .remote := hremote
  refine ⟨?_, ?_, ?_⟩
  · exact hi.tidy_set htidy
  · intro k
    have hadd := countP_set_add (Thread.holds s.pages k) ht t'
    rw [Thread.holds_none hfree, Thread.holds_some hholding] at hadd
    have hk := hi.held k
    show (s.threads.set i t').countP (Thread.holds s.pages k) ≤ 1 ∧
      (0 < (s.threads.set i t').countP (Thread.holds s.pages k) →
        (s.pages.pages.set (entry s.pages a) .inFlight)[k]? = some .inFlight)
    by_cases heq : entry s.pages a = k
    · -- nobody held the entry before, for it was `Remote`
      have hzero : ¬ 0 < s.threads.countP (Thread.holds s.pages k) := by
        intro hpos
        have hflight := hk.2 hpos
        rw [← heq, hentry] at hflight
        cases hflight
      rw [decide_eq_true heq, tally_true, tally_false] at hadd
      refine ⟨by omega, fun _ => ?_⟩
      rw [heq] at hentry ⊢
      exact List.getElem?_set_self (List.getElem?_eq_some_iff.mp hentry).1
    · rw [decide_eq_false heq, tally_false] at hadd
      rw [List.getElem?_set_ne heq]
      exact ⟨by omega, fun hpos => hk.2 (by omega)⟩
  · show s.pages.localPages + (((s.threads.set i t').countP Thread.owing : Nat) : Int) =
      (((s.pages.pages.set (entry s.pages a) .inFlight).countP (· = .local) : Nat) : Int)
    rw [countP_set_same Thread.owing ht (howing'.trans howing.symm),
      countP_set_same _ hentry (by decide)]
    exact hi.counted

theorem Inv.store (hi : Inv s) (ht : s.threads[i]? = some t) {a : Nat} (htidy : t'.Tidy)
    (hholding : t.holding = some a) (hfree : t'.holding = none) (howing : t.owing = false)
    (howing' : t'.owing = true) :
    Inv { s.setThread i t' with pages := s.pages.store (s.pages.pageId a) .local } := by
  have hself : tally (t.holds s.pages (entry s.pages a)) = 1 := by
    rw [Thread.holds_some hholding, decide_eq_true rfl, tally_true]
  have hentry : s.pages.pages[entry s.pages a]? = some .inFlight := by
    have hle := tally_le_countP (Thread.holds s.pages (entry s.pages a)) ht
    exact (hi.held _).2 (by omega)
  refine ⟨?_, ?_, ?_⟩
  · exact hi.tidy_set htidy
  · intro k
    have hadd := countP_set_add (Thread.holds s.pages k) ht t'
    rw [Thread.holds_none hfree, tally_false] at hadd
    have hk := hi.held k
    show (s.threads.set i t').countP (Thread.holds s.pages k) ≤ 1 ∧
      (0 < (s.threads.set i t').countP (Thread.holds s.pages k) →
        (s.pages.pages.set (entry s.pages a) .local)[k]? = some .inFlight)
    by_cases heq : entry s.pages a = k
    · rw [heq] at hself
      exact ⟨by omega, fun hpos => by omega⟩
    · rw [List.getElem?_set_ne heq]
      exact ⟨by omega, fun hpos => hk.2 (by omega)⟩
  · have howed := countP_set_add Thread.owing ht t'
    have hlocal := countP_set_add (fun x : PageState => decide (x = .local)) hentry .local
    have hold := hi.counted
    rw [howing, howing', tally_true, tally_false] at howed
    simp only [reduceCtorEq, decide_false, decide_true, tally_true, tally_false] at hlocal
    show s.pages.localPages + (((s.threads.set i t').countP Thread.owing : Nat) : Int) =
      (((s.pages.pages.set (entry s.pages a) .local).countP (· = .local) : Nat) : Int)
    omega

theorem Inv.count (hi : Inv s) (ht : s.threads[i]? = some t) (htidy : t'.Tidy)
    (hholding : t.holding = none) (hfree : t'.holding = none) (howing : t.owing = true)
    (howing' : t'.owing = false) :
    Inv { s.setThread i t' with
      pages := { s.pages with localPages := s.pages.localPages + 1 } } := by
  refine ⟨?_, ?_, ?_⟩
  · exact hi.tidy_set htidy
  · intro k
    have hsame : t'.holds s.pages k = t.holds s.pages k := by
      rw [Thread.holds_none hfree, Thread.holds_none hholding]
    show (s.threads.set i t').countP (Thread.holds s.pages k) ≤ 1 ∧
      (0 < (s.threads.set i t').countP (Thread.holds s.pages k) → _)
    rw [countP_set_same _ ht hsame]
    exact hi.held k
  · have howed := countP_set_add Thread.owing ht t'
    have hold := hi.counted
    rw [howing, howing', tally_true, tally_false] at howed
    show s.pages.localPages + 1 + (((s.threads.set i t').countP Thread.owing : Nat) : Int) = _
    dsimp only
    omega

theorem Inv.congr (hi : Inv s) (hpages : s'.pages = s.pages) (hthreads : s'.threads = s.threads) :
    Inv s' := by
  refine ⟨?_, ?_, ?_⟩
  · rw [hthreads]
    exact hi.tidy
  · rw [hthreads, hpages]
    exact hi.held
  · rw [hthreads, hpages]
    exact hi.counted

theorem turn_inv {choice : Choice} (hi : Inv s) (h : step cfg s (.turn i choice) = some s') :
    Inv s' := by
  obtain ⟨t, t', effect, ht, hturn, happly⟩ := turn_cases h
  obtain ⟨hbooks, htidy⟩ := hturn.books (hi.tidy t (List.mem_of_getElem? ht))
  cases effect with
  | none =>
      cases happly
      exact hi.keep ht htidy hbooks.1 hbooks.2
  | add l | release l | read address size =>
      cases happly
      exact (hi.keep ht htidy hbooks.1 hbooks.2).congr rfl rfl
  | protect address size =>
      obtain ⟨accessible, -, rfl⟩ := Option.map_eq_some_iff.mp happly
      exact (hi.keep ht htidy hbooks.1 hbooks.2).congr rfl rfl
  | claim a =>
      cases happly
      obtain ⟨hremote, hfree, hholding, howing, howing'⟩ := hbooks
      exact hi.claim ht htidy hremote hfree hholding howing howing'
  | store a =>
      obtain ⟨_, -, rfl⟩ := Option.map_eq_some_iff.mp happly
      obtain ⟨hholding, hfree, howing, howing'⟩ := hbooks
      exact hi.store ht htidy hholding hfree howing howing'
  | count =>
      cases happly
      obtain ⟨hholding, hfree, howing, howing'⟩ := hbooks
      exact hi.count ht htidy hholding hfree howing howing'
  | spawn u =>
      cases happly
      obtain ⟨hfree, hsame, howing, howing', hu', hu⟩ := hbooks
      exact hi.handOver ht htidy hu hfree hsame howing howing' hu'

theorem request_inv (hi : Inv s) (r : Request) : Inv (s.request r) := by
  cases r with
  | pullAllPagesWithoutClose | pullPagesSync | pullAllPages | close => exact hi.spawn trivial
  | pullAllPagesWithoutCloseAsync content =>
      exact Inv.spawn (s := s.malloc content) (hi.congr rfl rfl) trivial
  | pullPagesAsync size limit content =>
      exact Inv.spawn (s := s.malloc content) (hi.congr rfl rfl) trivial

theorem step_inv {act : Action} (hi : Inv s) (h : step cfg s act = some s') : Inv s' := by
  cases act with
  | fault a =>
      simp only [step, Option.ite_none_right_eq_some, Option.some.injEq] at h
      obtain ⟨-, rfl⟩ := h
      exact hi.spawn trivial
  | call r =>
      cases h
      exact request_inv hi r
  | turn i choice => exact turn_inv hi h

end Step

theorem received_inv {start size : Nat} {accessible : Nat → Bool} {limiter : Nat → Int} {s : State}
    (h : received start size accessible limiter = some s) : Inv s := by
  simp only [received, Option.bind_eq_bind, Option.bind_eq_some_iff, Option.pure_def,
    Option.some.injEq] at h
  obtain ⟨pages, hpages, accessible', -, rfl⟩ := h
  obtain ⟨-, -, -, -, -, -, hstates, -, hlocal⟩ := construct_eq_some hpages
  refine ⟨fun t ht => (nomatch ht), fun k => ⟨Nat.zero_le _, fun hpos => (nomatch hpos)⟩, ?_⟩
  dsimp only
  rw [hlocal, hstates, List.countP_replicate]
  rfl

end RdmaMigration.Paging.Threads
