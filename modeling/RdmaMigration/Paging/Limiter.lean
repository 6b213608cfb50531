import RdmaMigration.Lib.Update
import RdmaMigration.Paging.Closing

/-! # The rate limiters of the asynchronous pullers

An asynchronous puller raises its limiter before it tries to claim a page and its
callbacks lower it after their reads. The two sides balance when the word that
`malloc` returned was zero and when every claim is won; a claim that is lost
raises the limiter for a read that is never posted. A callback lowers the limiter
before it stores `Local`, so the last page can still be in flight when
`PullPagesAsync` returns.
-/

namespace RdmaMigration.Paging.Threads

open Lib Function

/-! ## Threads and their limiters -/

namespace Thread

/-- The thread is a callback with this limiter that has not lowered it yet: a read
posted and not completed. -/
def outstanding (l : Nat) (t : Thread) : Bool :=
  match t.control with
  | .working _ _ ops _ => .release l ∈ ops
  | _ => false

/-- The thread is between raising its limiter and posting the read. -/
def raised (t : Thread) : Bool :=
  match t.control with
  | .claiming _ _ _ | .posting _ _ _ => true
  | _ => false

theorem holding_eq_some {t : Thread} {a : Nat} (h : t.holding = some a) :
    (∃ size next, t.control = .posting a size next) ∨
      ∃ size ops next, t.control = .working a size ops next ∧ .store ∈ ops := by
  unfold holding at h
  split at h
  next hcontrol =>
    cases h
    exact .inl ⟨_, _, hcontrol⟩
  next hcontrol =>
    split at h
    next hstore =>
      cases h
      exact .inr ⟨_, _, _, hcontrol, hstore⟩
    next => cases h
  next => cases h

def Sound (t : Thread) : Prop :=
  match t.control with
  | .working _ _ ops _ =>
      t.call.limiter = none ∧ ∀ l, .release l ∈ ops → t.call = .markPageLocalCB l
  | .posting _ _ next => t.call.limiter.isSome ∧ next.isSome
  | .claiming _ _ next => t.call.limiter.isSome → next.isSome
  | .opening | .checking | .sending => t.call.limiter = none
  | _ => True

theorem outstanding_of_free {t : Thread} (h : t.control.Free) (l : Nat) :
    t.outstanding l = false := by
  unfold outstanding
  split
  next heq => simp [heq, Control.Free] at h
  next => rfl

theorem outstanding_working {t : Thread} {address size : Nat} {ops : List Atomic}
    {next : Option Cursor} (h : t.control = .working address size ops next) (l : Nat) :
    t.outstanding l = decide (.release l ∈ ops) := by
  rw [outstanding, h]

theorem Sound.working {t : Thread} (hs : t.Sound) {address size : Nat} {ops : List Atomic}
    {next : Option Cursor} (h : t.control = .working address size ops next) :
    t.call.limiter = none ∧ ∀ l, .release l ∈ ops → t.call = .markPageLocalCB l := by
  unfold Sound at hs
  rw [h] at hs
  exact hs

theorem Sound.posting {t : Thread} (hs : t.Sound) {address size : Nat} {next : Option Cursor}
    (h : t.control = .posting address size next) : t.call.limiter.isSome ∧ next.isSome := by
  unfold Sound at hs
  rw [h] at hs
  exact hs

theorem Sound.claiming {t : Thread} (hs : t.Sound) {address size : Nat} {next : Option Cursor}
    (h : t.control = .claiming address size next) (hl : t.call.limiter.isSome) :
    next.isSome := by
  unfold Sound at hs
  rw [h] at hs
  exact hs hl

theorem Sound.synchronous {t : Thread} (hs : t.Sound)
    (h : t.control = .opening ∨ t.control = .checking ∨ t.control = .sending) :
    t.call.limiter = none := by
  unfold Sound at hs
  rcases h with h | h | h <;> rw [h] at hs <;> exact hs

end Thread

theorem Call.ops_release (c : Call) (l : Nat) : .release l ∉ c.ops := by
  cases c <;> simp [Call.ops, Paging.sigsegvAdvance, pullPage, markPageLocal]

theorem sound_resume (t : Thread) (next : Option Cursor) : (t.goto (resume next)).Sound := by
  cases next <;> trivial

theorem sound_afterLoop (t : Thread) : (t.goto t.call.afterLoop).Sound := by
  cases hcall : t.call with
  | pullAllPages | close =>
      show t.call.limiter = none
      rw [hcall]
      rfl
  | sigsegvAdvance | pullAllPagesWithoutClose | pullAllPagesWithoutCloseAsync | pullPagesSync
  | pullPagesAsync | markPageLocalCB => trivial

section Turn

variable {cfg : Config} {s s' : State} {t t' : Thread} {effect : Effect} {choice : Choice}

theorem sound_working {address size : Nat} {op : Atomic} {rest : List Atomic}
    {next : Option Cursor} (hs : t.Sound)
    (h : t.control = .working address size (op :: rest) next) :
    (t.goto (.working address size rest next)).Sound := by
  obtain ⟨hl, hown⟩ := hs.working h
  exact ⟨hl, fun l hmem => hown l (List.mem_cons_of_mem _ hmem)⟩

theorem Turned.sound (hs : t.Sound) (h : Turned cfg s t choice t' effect) : t'.Sound := by
  cases h with
  | opened h hc =>
      rcases hc with rfl | rfl
      · trivial
      · exact hs.synchronous (.inl h)
  | checked h => rfl
  | ended h => exact sound_afterLoop t
  | lost h | posted h | finished h => exact sound_resume t _
  | spun h | waited h => exact hs
  | chosen h hhead hl =>
      intro hsome
      have hsome' : t.call.limiter.isSome := hsome
      simp [hl] at hsome'
  | added h hl => exact fun _ => rfl
  | wonAsync h hremote hl =>
      have hsome : t.call.limiter.isSome := by simp [hl]
      exact ⟨hsome, hs.claiming h hsome⟩
  | wonSync h hremote hl => exact ⟨hl, fun l hmem => absurd hmem (t.call.ops_release l)⟩
  | sent h | completed h | unprotected h | stored h | counted h | released h =>
      exact sound_working hs h
  | ignored h =>
      have hsent := sound_working hs h
      obtain ⟨hl, hown⟩ := hsent.working rfl
      exact ⟨hl, fun l hmem => hown l (List.mem_cons_of_mem _ hmem)⟩
  | _ => trivial

theorem callback_sound (l address size : Nat) : (callback l address size).Sound := by
  refine ⟨rfl, ?_⟩
  intro l' hmem
  have heq : l' = l := by simpa [markPageLocalCB] using hmem
  rw [heq]
  rfl

def Effect.delta (l : Nat) : Effect → Int
  | .add l' => if l' = l then 1 else 0
  | .release l' => if l' = l then -1 else 0
  | _ => 0

def Effect.posts (l : Nat) : Effect → Int
  | .spawn u => tally (u.outstanding l)
  | .release l' => if l' = l then -1 else 0
  | _ => 0

theorem apply_limiter {i : Nat} (h : (s.setThread i t').apply effect = some s') (l : Nat) :
    s'.limiter l = s.limiter l + effect.delta l := by
  have hsame : s.limiter l = s.limiter l + 0 := (Int.add_zero _).symm
  cases effect with
  | none | claim a | count | spawn u | read a n =>
      cases h
      exact hsame
  | protect a n | store a =>
      obtain ⟨_, -, rfl⟩ := Option.map_eq_some_iff.mp h
      exact hsame
  | add l' =>
      cases h
      by_cases hl : l' = l
      · subst hl
        simp [Effect.delta, State.setThread]
      · simp [Effect.delta, hl, Ne.symm hl, State.setThread]
  | release l' =>
      cases h
      by_cases hl : l' = l
      · subst hl
        simp [Effect.delta, State.setThread, Int.sub_eq_add_neg]
      · simp [Effect.delta, hl, Ne.symm hl, State.setThread]

theorem outstanding_of_other {address size : Nat} {op : Atomic} {rest : List Atomic}
    {next : Option Cursor} (h : t.control = .working address size (op :: rest) next) {l : Nat}
    (hop : op ≠ .release l) :
    (t.goto (.working address size rest next)).outstanding l = t.outstanding l := by
  rw [Thread.outstanding_working h, Thread.outstanding_working rfl]
  simp [Ne.symm hop]

/-- Only a `fetch_sub` makes a thread's read completed. -/
theorem Turned.outstanding (htidy : t.Tidy) (hs : t.Sound)
    (h : Turned cfg s t choice t' effect) (l : Nat) :
    t'.outstanding l = t.outstanding l ∨
      (effect = .release l ∧ t.outstanding l = true ∧ t'.outstanding l = false) := by
  have hfree : ∀ {c : Control}, t.control = c → c.Free → t'.control.Free →
      t'.outstanding l = t.outstanding l := by
    intro c hc hcf hfree'
    have hcontrol : t.control.Free := by
      rw [hc]
      exact hcf
    rw [Thread.outstanding_of_free hcontrol, Thread.outstanding_of_free hfree']
  cases h with
  | opened h hc => rcases hc with rfl | rfl <;> exact .inl (hfree h trivial trivial)
  | copied h | begun h | skipped h | outOfRange h | queued h | chosen h | admitted h | added h
  | raised h | rechecked h | checked h | left h | done h => exact .inl (hfree h trivial trivial)
  | ended h => exact .inl (hfree h trivial t.call.afterLoop_free)
  | lost h => exact .inl (hfree h trivial (resume_free _))
  | spun h | waited h => exact .inl rfl
  | wonAsync h =>
      refine .inl ?_
      rw [Thread.outstanding, Thread.outstanding, h]
  | wonSync h =>
      refine .inl ?_
      rw [Thread.outstanding_working rfl, Thread.outstanding, h]
      exact decide_eq_false (t.call.ops_release l)
  | posted h =>
      refine .inl ?_
      rw [Thread.outstanding_of_free (resume_free _), Thread.outstanding, h]
  | refusedAsync h =>
      refine .inl ?_
      rw [Thread.outstanding, Thread.outstanding, h]
      rfl
  | refused h hcall =>
      refine .inl ?_
      rw [Thread.outstanding_working h, Thread.outstanding_of_free (t := t.goto .thrown) trivial]
      refine (decide_eq_false fun hmem => ?_).symm
      have hcb := (hs.working h).2 l hmem
      rw [hcall] at hcb
      cases hcb
  | sent h | completed h | unprotected h | stored h | counted h =>
      exact .inl (outstanding_of_other h (by simp))
  | ignored h =>
      refine .inl ?_
      rw [Thread.outstanding_working h, Thread.outstanding_working rfl]
      simp
  | @released _ _ _ l' _ _ h =>
      by_cases hl : l' = l
      · subst hl
        have hops := htidy _ _ _ _ h
        refine .inr ⟨rfl, ?_, ?_⟩
        · rw [Thread.outstanding_working h]
          exact decide_eq_true List.mem_cons_self
        · rw [Thread.outstanding_working rfl]
          exact decide_eq_false hops.1
      · exact .inl (outstanding_of_other h (by simpa using hl))
  | finished h =>
      refine .inl ?_
      rw [Thread.outstanding_of_free (resume_free _), Thread.outstanding_working h]
      rfl

theorem Turned.releaser {l : Nat} (htidy : t.Tidy) (hs : t.Sound)
    (h : Turned cfg s t choice t' (.release l)) :
    t.call = .markPageLocalCB l ∧ t.outstanding l = true ∧ t'.outstanding l = false := by
  cases h with
  | released h =>
      refine ⟨(hs.working h).2 l List.mem_cons_self, ?_, ?_⟩
      · rw [Thread.outstanding_working h]
        exact decide_eq_true List.mem_cons_self
      · rw [Thread.outstanding_working rfl]
        exact decide_eq_false (htidy _ _ _ _ h).1

theorem Turned.countP_outstanding {i : Nat} (ht : s.threads[i]? = some t) (htidy : t.Tidy)
    (hs : t.Sound) (h : Turned cfg s t choice t' effect)
    (happly : (s.setThread i t').apply effect = some s') (l : Nat) :
    (s'.threads.countP (Thread.outstanding l) : Int) =
      s.threads.countP (Thread.outstanding l) + effect.posts l := by
  have hadd := countP_set_add (Thread.outstanding l) ht t'
  have hout := h.outstanding htidy hs l
  rcases apply_threads happly with ⟨hspawn, hthreads⟩ | ⟨u, rfl, hthreads⟩
  · rw [hthreads]
    by_cases hrelease : effect = .release l
    · subst hrelease
      obtain ⟨-, hbefore, hafter⟩ := h.releaser htidy hs
      rw [hbefore, hafter, tally_true, tally_false] at hadd
      simp only [Effect.posts, if_true]
      omega
    · have hsame : t'.outstanding l = t.outstanding l :=
        hout.resolve_right fun hright => hrelease hright.1
      have hposts : effect.posts l = 0 := by
        cases effect with
        | spawn u => exact absurd rfl (hspawn u)
        | release l' =>
            have hne : l' ≠ l := fun heq => hrelease (by rw [heq])
            simp [Effect.posts, hne]
        | none | claim a | protect a n | store a | count | add l' | read a n => rfl
      rw [hsame] at hadd
      omega
  · have hsame : t'.outstanding l = t.outstanding l :=
      hout.resolve_right fun hright => (nomatch hright.1)
    rw [hthreads, countP_concat]
    rw [hsame] at hadd
    simp only [Effect.posts]
    omega

/-- A puller that wins its claims raises its limiter once for each read it posts. -/
theorem Turned.balance {l : Nat} (hs : t.Sound) (hl : t.call.limiter = some l)
    (hwins : ∀ spurious address size next, choice = .step spurious →
      t.control = .claiming address size next →
      s.pages.at? (s.pages.pageId address) = some .remote ∧ spurious = false)
    (h : Turned cfg s t choice t' effect) :
    t'.call = t.call ∧ (t'.control = .thrown ∨
      (tally t'.raised : Int) + effect.posts l = tally t.raised + effect.delta l) := by
  have hworking : ∀ {address size : Nat} {ops : List Atomic} {next : Option Cursor},
      t.control ≠ .working address size ops next := by
    intro address size ops next hcontrol
    have hnone := (hs.working hcontrol).1
    rw [hl] at hnone
    cases hnone
  cases h with
  | opened h hc =>
      rcases hc with rfl | rfl <;>
        exact ⟨rfl, .inr (by simp [Thread.raised, Thread.goto, h, Effect.posts, Effect.delta])⟩
  | copied h | begun h | skipped h | queued h | admitted h | rechecked h | left h | done h =>
      exact ⟨rfl, .inr (by simp [Thread.raised, Thread.goto, h, Effect.posts, Effect.delta])⟩
  | ended h =>
      refine ⟨rfl, .inr ?_⟩
      have hafter : (t.goto t.call.afterLoop).raised = false := by
        unfold Thread.raised Thread.goto
        cases t.call <;> rfl
      rw [hafter]
      simp [Thread.raised, h, Effect.posts, Effect.delta]
  | spun h | waited h => exact ⟨rfl, .inr rfl⟩
  | outOfRange h | refusedAsync h | refused h => exact ⟨rfl, .inl rfl⟩
  | chosen h hhead hnone =>
      rw [hl] at hnone
      cases hnone
  | @added _ _ l' h hl' =>
      obtain rfl : l' = l := Option.some.inj (hl'.symm.trans hl)
      exact ⟨rfl, .inr (by simp [Thread.raised, Thread.goto, h, Effect.posts, Effect.delta])⟩
  | raised h hstate => exact ⟨rfl, .inl rfl⟩
  | lost h hlost =>
      obtain ⟨hremote, hspurious⟩ := hwins _ _ _ _ rfl h
      rcases hlost with hnot | htrue
      · exact absurd hremote hnot
      · rw [hspurious] at htrue
        cases htrue
  | wonAsync h => exact ⟨rfl, .inr (by simp [Thread.raised, h, Effect.posts, Effect.delta])⟩
  | wonSync h hremote hnone =>
      rw [hl] at hnone
      cases hnone
  | @posted _ _ l' next h hl' =>
      obtain rfl : l' = l := Option.some.inj (hl'.symm.trans hl)
      refine ⟨rfl, .inr ?_⟩
      have hafter : (t.goto (resume next)).raised = false := by
        cases next <;> rfl
      rw [hafter]
      simp [Thread.raised, h, Effect.posts, Effect.delta, callback, Thread.outstanding,
        markPageLocalCB]
  | sent h | ignored h | completed h | unprotected h | stored h | counted h | released h
  | finished h => exact absurd h hworking
  | checked h =>
      have hnone := hs.synchronous (.inr (.inl h))
      rw [hl] at hnone
      cases hnone

theorem Turned.adder {l : Nat} (h : Turned cfg s t choice t' (.add l)) :
    t.call.limiter = some l := by
  cases h with
  | added h hl => exact hl

theorem Turned.poster {u : Thread} (h : Turned cfg s t choice t' (.spawn u)) :
    ∃ l address size next, t.call.limiter = some l ∧ u = callback l address size ∧
      t.control = .posting address size next := by
  cases h with
  | posted h hl => exact ⟨_, _, _, _, hl, rfl, h⟩

theorem Turned.from_posting {address size : Nat} {next : Option Cursor}
    (hcontrol : t.control = .posting address size next) (h : Turned cfg s t choice t' effect) :
    t'.control = .thrown ∨
      ∃ l, t.call.limiter = some l ∧ effect = .spawn (callback l address size) := by
  cases h with
  | posted h hl =>
      rw [hcontrol] at h
      cases h
      exact .inr ⟨_, hl, rfl⟩
  | refusedAsync h => exact .inl rfl
  | _ => simp_all

theorem Turned.callback_holding {l a : Nat} (hs : t.Sound)
    (hcall : t.call = .markPageLocalCB l) (hholding : t.holding = some a)
    (h : Turned cfg s t choice t' effect) :
    effect = .store a ∨ (t'.call = .markPageLocalCB l ∧ t'.holding = some a) := by
  obtain ⟨size, ops, next, hcontrol, hstore⟩ : ∃ size ops next,
      t.control = .working a size ops next ∧ .store ∈ ops := by
    rcases Thread.holding_eq_some hholding with ⟨size, next, hposting⟩ | hworking
    · have hsome := (hs.posting hposting).1
      rw [hcall] at hsome
      cases hsome
    · exact hworking
  have hkeep : ∀ {op : Atomic} {rest : List Atomic}, ops = op :: rest → op ≠ .store →
      (t.goto (.working a size rest next)).holding = some a := by
    intro op rest hops hop
    rw [hops] at hstore
    have hrest : Atomic.store ∈ rest := by simpa [Ne.symm hop] using hstore
    rw [Thread.holding_working rfl, if_pos hrest]
  cases h with
  | stored h =>
      rw [hcontrol] at h
      cases h
      exact .inl rfl
  | sent h | completed h | unprotected h | counted h | released h =>
      rw [hcontrol] at h
      cases h
      exact .inr ⟨hcall, hkeep rfl (by simp)⟩
  | @ignored _ _ rest _ h _ =>
      rw [hcontrol] at h
      cases h
      have hrest : Atomic.store ∈ rest := by simpa using hstore
      exact .inr ⟨hcall, by rw [Thread.holding_working rfl, if_pos hrest]⟩
  | refused h hsig =>
      rw [hcall] at hsig
      cases hsig
  | finished h =>
      rw [hcontrol] at h
      cases h
      cases hstore
  | _ => simp_all

end Turn

/-! ## The conditions -/

/-- The word of a new limiter is zero, and the limit lets at least one read pass. -/
def Zeroed : Action → Prop
  | .call (.pullAllPagesWithoutCloseAsync content) => content = 0
  | .call (.pullPagesAsync _ maxAsyncLimit content) => content = 0 ∧ 0 ≤ maxAsyncLimit
  | _ => True

/-- An asynchronous puller finds the page it tries to claim `Remote`, and its
compare-and-exchange does not fail spuriously. -/
def Wins (s : State) : Action → Prop
  | .turn i (.step spurious) =>
      match s.threads[i]? with
      | none => True
      | some t =>
          match t.call.limiter, t.control with
          | some _, .claiming address _ _ =>
              s.pages.at? (s.pages.pageId address) = some .remote ∧ spurious = false
          | _, _ => True
  | _ => True

/-- `PullPagesAsync` does not read its limiter in the final wait while one of its
callbacks is between its `fetch_sub` and its store of `Local`. -/
def Settles (s : State) : Action → Prop
  | .turn i (.step _) =>
      match s.threads[i]? with
      | none => True
      | some t =>
          match t.call.limiter, t.control with
          | some l, .waiting => ∀ u ∈ s.threads, u.call = .markPageLocalCB l →
              u.outstanding l = true ∨ u.holding = none
          | _, _ => True
  | _ => True

def Paired (s : State) (act : Action) : Prop := Zeroed act ∧ Wins s act ∧ Settles s act

theorem Wins.claim {s : State} {i : Nat} {choice : Choice} {t : Thread} {l : Nat}
    (h : Wins s (.turn i choice)) (ht : s.threads[i]? = some t) (hl : t.call.limiter = some l) :
    ∀ spurious address size next, choice = .step spurious →
      t.control = .claiming address size next →
      s.pages.at? (s.pages.pageId address) = some .remote ∧ spurious = false := by
  intro spurious address size next hchoice hcontrol
  subst hchoice
  simpa only [Wins, ht, hl, hcontrol] using h

theorem Settles.wait {s : State} {i : Nat} {spurious : Bool} {t : Thread} {l : Nat}
    (h : Settles s (.turn i (.step spurious))) (ht : s.threads[i]? = some t)
    (hl : t.call.limiter = some l) (hcontrol : t.control = .waiting) :
    ∀ u ∈ s.threads, u.call = .markPageLocalCB l → u.outstanding l = true ∨ u.holding = none := by
  simpa only [Settles, ht, hl, hcontrol] using h

/-! ## The invariant -/

/-- What has become of a page that the puller `t` has claimed. -/
def Handed (s : State) (l : Nat) (t : Thread) (a : Nat) : Prop :=
  entryState s.pages a = some .local ∨ (∃ size next, t.control = .posting a size next) ∨
    ∃ u ∈ s.threads, u.call = .markPageLocalCB l ∧ u.holding = some a

structure LimiterInv (s : State) : Prop where
  tidy : ∀ t ∈ s.threads, t.Tidy
  sound : ∀ t ∈ s.threads, t.Sound
  fresh : ∀ t ∈ s.threads, ∀ l, t.call.limiter = some l ∨ t.call = .markPageLocalCB l →
    l < s.nextLimiter
  unique : ∀ (i j : Nat) t u l, s.threads[i]? = some t → s.threads[j]? = some u →
    t.call.limiter = some l → u.call.limiter = some l → i = j
  balance : ∀ t ∈ s.threads, ∀ l, t.call.limiter = some l → t.control ≠ .thrown →
    s.limiter l = s.threads.countP (Thread.outstanding l) + tally t.raised
  claims : ∀ t ∈ s.threads, ∀ l, t.call.limiter = some l → t.control ≠ .thrown →
    ∀ a ∈ t.claimed, Handed s l t a
  returned : ∀ t ∈ s.threads, ∀ l m, t.call = .pullPagesAsync l m → t.control = .returned →
    ∀ a ∈ t.claimed, entryState s.pages a = some .local
  limits : ∀ t ∈ s.threads, ∀ l m, t.call = .pullPagesAsync l m → 0 ≤ m

section Apply

variable {cfg : Config} {s s' : State} {i j : Nat} {t t' v : Thread} {effect : Effect}
  {choice : Choice}

theorem thread_after (happly : (s.setThread i t').apply effect = some s')
    (hv : s'.threads[j]? = some v) :
    (j = i ∧ v = t') ∨ (j ≠ i ∧ s.threads[j]? = some v) ∨ effect = .spawn v := by
  have hset : ∀ {j : Nat}, (s.threads.set i t')[j]? = some v →
      (j = i ∧ v = t') ∨ (j ≠ i ∧ s.threads[j]? = some v) := by
    intro j hj
    by_cases hji : j = i
    · subst hji
      rw [List.getElem?_set_self' ] at hj
      obtain ⟨_, -, heq⟩ := Option.map_eq_some_iff.mp hj
      exact .inl ⟨rfl, heq.symm⟩
    · rw [List.getElem?_set_ne (Ne.symm hji)] at hj
      exact .inr ⟨hji, hj⟩
  rcases apply_threads happly with ⟨-, hthreads⟩ | ⟨u, rfl, hthreads⟩
  · rw [hthreads] at hv
    exact (hset hv).imp_right .inl
  · rw [hthreads] at hv
    rcases getElem?_snoc_cases hv with hold | ⟨-, hu⟩
    · exact (hset hold).imp_right .inl
    · exact .inr (.inr (by rw [hu]))

theorem thread_before (ht : s.threads[i]? = some t)
    (happly : (s.setThread i t').apply effect = some s') :
    t' ∈ s'.threads ∧ ∀ u ∈ s.threads, u = t ∨ u ∈ s'.threads := by
  have hset : t' ∈ s.threads.set i t' ∧ ∀ u ∈ s.threads, u = t ∨ u ∈ s.threads.set i t' := by
    have hi := (List.getElem?_eq_some_iff.mp ht).1
    refine ⟨List.mem_set hi t', ?_⟩
    intro u hu
    obtain ⟨j, hj⟩ := List.mem_iff_getElem?.mp hu
    by_cases hji : j = i
    · subst hji
      exact .inl (Option.some.inj (hj.symm.trans ht))
    · refine .inr (List.mem_of_getElem? (i := j) ?_)
      rw [List.getElem?_set_ne (Ne.symm hji)]
      exact hj
  rcases apply_threads happly with ⟨-, hthreads⟩ | ⟨v, -, hthreads⟩
  · rw [hthreads]
    exact hset
  · rw [hthreads]
    exact ⟨List.mem_append_left _ hset.1, fun u hu =>
      (hset.2 u hu).imp_right (List.mem_append_left _)⟩

theorem apply_nextLimiter (happly : (s.setThread i t').apply effect = some s') :
    s'.nextLimiter = s.nextLimiter := by
  cases effect with
  | none | claim a | count | spawn u | read a n | add l | release l =>
      cases happly
      rfl
  | protect a n | store a =>
      obtain ⟨_, -, rfl⟩ := Option.map_eq_some_iff.mp happly
      rfl

theorem apply_entryState {a : Nat} (hbooks : Books s t t' effect)
    (happly : (s.setThread i t').apply effect = some s')
    (h : entryState s.pages a = some .local) : entryState s'.pages a = some .local := by
  cases effect with
  | none | count | spawn u | read a n | add l | release l =>
      cases happly
      exact h
  | protect a n =>
      obtain ⟨_, -, rfl⟩ := Option.map_eq_some_iff.mp happly
      exact h
  | claim b =>
      cases happly
      exact (entryState_store_ne _ (entry_ne_of_state (by decide) hbooks.1 h)).trans h
  | store b =>
      obtain ⟨state, hstate, rfl⟩ := Option.map_eq_some_iff.mp happly
      by_cases hentry : entry s.pages b = entry s.pages a
      · have hself : entryState (s.pages.store (s.pages.pageId b) .local) b = some .local :=
          entryState_store_self _ hstate
        exact (entryState_eq_of_entry_eq (p := s.pages.store _ _) hentry.symm).trans hself
      · exact (entryState_store_ne _ hentry).trans h

theorem store_entryState {a : Nat} (happly : (s.setThread i t').apply (.store a) = some s') :
    entryState s'.pages a = some .local := by
  obtain ⟨state, hstate, rfl⟩ := Option.map_eq_some_iff.mp happly
  exact entryState_store_self _ hstate

end Apply

section Turn

variable {cfg : Config} {s s' : State} {i : Nat} {t t' : Thread} {effect : Effect}
  {choice : Choice}

theorem Turned.not_thrown (h : Turned cfg s t choice t' effect) : t.control ≠ .thrown := by
  intro hthrown
  cases h <;> simp_all

/-- Another puller's turn changes a limiter and its outstanding reads alike. -/
theorem Turned.delta_eq_posts {l : Nat} (hl : t.call.limiter ≠ some l)
    (h : Turned cfg s t choice t' effect) : effect.delta l = effect.posts l := by
  cases effect with
  | none | claim a | protect a n | store a | count | read a n | release l' => rfl
  | add l' =>
      have hne : l' ≠ l := fun heq => hl (heq ▸ h.adder)
      simp [Effect.delta, Effect.posts, hne]
  | spawn u =>
      obtain ⟨l', address, size, next, hl', rfl, -⟩ := h.poster
      have hne : l ≠ l' := fun heq => hl (heq ▸ hl')
      simp [Effect.delta, Effect.posts, callback, Thread.outstanding, markPageLocalCB, hne]

theorem Turned.claimed {l : Nat} (hl : t.call.limiter = some l)
    (h : Turned cfg s t choice t' effect) :
    ∀ a ∈ t'.claimed, a ∈ t.claimed ∨ ∃ size next, t'.control = .posting a size next := by
  cases h with
  | wonAsync h =>
      intro a ha
      rcases List.mem_cons.mp ha with rfl | ha
      · exact .inr ⟨_, _, rfl⟩
      · exact .inl ha
  | wonSync h hremote hnone =>
      rw [hl] at hnone
      cases hnone
  | _ => exact fun a ha => .inl ha

theorem Turned.left_wait {l : Nat} {m : Int} (hs : t.Sound) (hcall : t.call = .pullPagesAsync l m)
    (h : Turned cfg s t choice t' effect) (hreturned : t'.control = .returned) :
    t.control = .waiting ∧ s.limiter l ≤ 0 ∧ effect = .none ∧ t'.claimed = t.claimed ∧
      ∃ spurious, choice = .step spurious := by
  have hl : t.call.limiter = some l := by rw [hcall]; rfl
  have hresume : ∀ {next : Option Cursor}, next.isSome → resume next ≠ .returned := by
    intro next hsome heq
    cases next with
    | none => cases hsome
    | some c => cases heq
  cases h with
  | @left _ l' h hl' hdone =>
      obtain rfl : l' = l := Option.some.inj (hl'.symm.trans hl)
      exact ⟨h, hdone, rfl, rfl, _, rfl⟩
  | opened h hc => rcases hc with rfl | rfl <;> cases hreturned
  | ended h =>
      have hafter : t.call.afterLoop = .returned := hreturned
      rw [hcall] at hafter
      cases hafter
  | lost h => exact absurd hreturned (hresume (hs.claiming h (by rw [hl]; rfl)))
  | posted h => exact absurd hreturned (hresume (hs.posting h).2)
  | finished h =>
      have hnone := (hs.working h).1
      rw [hl] at hnone
      cases hnone
  | done h =>
      have hnone := hs.synchronous (.inr (.inr h))
      rw [hl] at hnone
      cases hnone
  | spun h | waited h =>
      rw [hreturned] at h
      cases h
  | copied | begun | skipped | outOfRange | queued | chosen | admitted | added | raised | wonAsync
  | wonSync | refusedAsync | sent | refused | ignored | completed | unprotected | stored
  | counted | released | rechecked | checked => cases hreturned

end Turn

section Step

variable {cfg : Config} {s s' : State} {i : Nat} {t t' : Thread} {effect : Effect}
  {choice : Choice}

theorem LimiterInv.turn_fresh (hi : LimiterInv s) (hmem : t ∈ s.threads)
    (hturn : Turned cfg s t choice t' effect) {l : Nat}
    (hl : t'.call.limiter = some l ∨ t'.call = .markPageLocalCB l) : l < s.nextLimiter := by
  rcases hturn.call with hsame | ⟨-, hclose⟩
  · rw [hsame] at hl
    exact hi.fresh t hmem l hl
  · rw [hclose] at hl
    rcases hl with hl | hl <;> cases hl

section Taken

variable {j l a : Nat} {v : Thread} (ht : s.threads[i]? = some t)
  (hturn : Turned cfg s t choice t' effect) (happly : (s.setThread i t').apply effect = some s')

include hturn happly

theorem turn_puller (hv : s'.threads[j]? = some v) (hl : v.call.limiter = some l) :
    (j = i ∧ v = t' ∧ t.call.limiter = some l) ∨ (j ≠ i ∧ s.threads[j]? = some v) := by
  rcases thread_after happly hv with ⟨hj, rfl⟩ | hold | rfl
  · refine .inl ⟨hj, rfl, ?_⟩
    rcases hturn.call with hsame | ⟨-, hclose⟩
    · rw [← hsame]
      exact hl
    · rw [hclose] at hl
      cases hl
  · exact .inr hold
  · obtain ⟨l', address, size, next, -, rfl, -⟩ := hturn.poster
    cases hl

include ht

theorem LimiterInv.turn_unique (hi : LimiterInv s) {k : Nat} {w : Thread}
    (hv : s'.threads[j]? = some v) (hw : s'.threads[k]? = some w)
    (hlv : v.call.limiter = some l) (hlw : w.call.limiter = some l) : j = k := by
  rcases turn_puller hturn happly hv hlv with ⟨rfl, -, hl⟩ | ⟨-, hv⟩
  · rcases turn_puller hturn happly hw hlw with ⟨rfl, -, -⟩ | ⟨-, hw⟩
    · rfl
    · exact hi.unique _ _ t w l ht hw hl hlw
  · rcases turn_puller hturn happly hw hlw with ⟨rfl, -, hl⟩ | ⟨-, hw⟩
    · exact hi.unique _ _ v t l hv ht hlv hl
    · exact hi.unique _ _ v w l hv hw hlv hlw

theorem LimiterInv.turn_balance (hi : LimiterInv s) (hwins : Wins s (.turn i choice))
    (hv : s'.threads[j]? = some v) (hl : v.call.limiter = some l) (hthrown : v.control ≠ .thrown) :
    s'.limiter l = s'.threads.countP (Thread.outstanding l) + tally v.raised := by
  have hmem := List.mem_of_getElem? ht
  have hcount := hturn.countP_outstanding ht (hi.tidy t hmem) (hi.sound t hmem) happly l
  have hlimiter := apply_limiter happly l
  rcases turn_puller hturn happly hv hl with ⟨-, rfl, hl⟩ | ⟨hj, hv⟩
  · have hold := hi.balance t hmem l hl hturn.not_thrown
    obtain ⟨-, hbalance⟩ := hturn.balance (hi.sound t hmem) hl (hwins.claim ht hl)
    have heq := hbalance.resolve_left hthrown
    omega
  · have hne : t.call.limiter ≠ some l :=
      fun hlt => hj (hi.unique _ _ v t l hv ht hl hlt)
    have hold := hi.balance v (List.mem_of_getElem? hv) l hl hthrown
    have heq := hturn.delta_eq_posts hne
    omega

theorem LimiterInv.turn_handed (hi : LimiterInv s) {u : Thread}
    (hu : u ∈ s.threads) (hcall : u.call = .markPageLocalCB l) (hholding : u.holding = some a) :
    entryState s'.pages a = some .local ∨
      ∃ u ∈ s'.threads, u.call = .markPageLocalCB l ∧ u.holding = some a := by
  obtain ⟨hmem', hbefore⟩ := thread_before ht happly
  rcases hbefore u hu with rfl | hu'
  · rcases hturn.callback_holding (hi.sound u hu) hcall hholding with rfl | hkept
    · exact .inl (store_entryState happly)
    · exact .inr ⟨t', hmem', hkept⟩
  · exact .inr ⟨u, hu', hcall, hholding⟩

theorem LimiterInv.turn_claims (hi : LimiterInv s) (hv : s'.threads[j]? = some v)
    (hl : v.call.limiter = some l) (hthrown : v.control ≠ .thrown)
    (ha : a ∈ v.claimed) : Handed s' l v a := by
  have hmem := List.mem_of_getElem? ht
  obtain ⟨hbooks, -⟩ := hturn.books (hi.tidy t hmem)
  rcases turn_puller hturn happly hv hl with ⟨-, rfl, hl⟩ | ⟨hj, hv⟩
  · rcases hturn.claimed hl a ha with hold | hnew
    · rcases hi.claims t hmem l hl hturn.not_thrown a hold with hlocal | ⟨size, next, hposting⟩ |
        ⟨u, hu, hcall, hholding⟩
      · exact .inl (apply_entryState hbooks happly hlocal)
      · -- the read is posted now, and the callback takes the page over
        rcases hturn.from_posting hposting with hgone | ⟨l', hl', rfl⟩
        · exact absurd hgone hthrown
        · obtain rfl : l' = l := Option.some.inj (hl'.symm.trans hl)
          have hspawned : callback l' a size ∈ s'.threads := by
            cases happly
            exact List.mem_append_right _ List.mem_cons_self
          refine .inr (.inr ⟨_, hspawned, rfl, ?_⟩)
          rw [callback, Thread.holding_working rfl, if_pos (by simp [markPageLocalCB])]
      · rcases hi.turn_handed ht hturn happly hu hcall hholding with hlocal | hkept
        · exact .inl hlocal
        · exact .inr (.inr hkept)
    · exact .inr (.inl hnew)
  · rcases hi.claims v (List.mem_of_getElem? hv) l hl hthrown a ha with hlocal | hposting |
      ⟨u, hu, hcall, hholding⟩
    · exact .inl (apply_entryState hbooks happly hlocal)
    · exact .inr (.inl hposting)
    · rcases hi.turn_handed ht hturn happly hu hcall hholding with hlocal | hkept
      · exact .inl hlocal
      · exact .inr (.inr hkept)

theorem LimiterInv.turn_returned (hi : LimiterInv s) (hsettles : Settles s (.turn i choice))
    {m : Int} (hv : s'.threads[j]? = some v) (hcall : v.call = .pullPagesAsync l m)
    (hreturned : v.control = .returned) (ha : a ∈ v.claimed) :
    entryState s'.pages a = some .local := by
  have hmem := List.mem_of_getElem? ht
  obtain ⟨hbooks, -⟩ := hturn.books (hi.tidy t hmem)
  refine apply_entryState hbooks happly ?_
  have hl : v.call.limiter = some l := by rw [hcall]; rfl
  rcases turn_puller hturn happly hv hl with ⟨-, rfl, hlt⟩ | ⟨-, hv⟩
  · have hsame : v.call = t.call := by
      rcases hturn.call with hsame | ⟨-, hclose⟩
      · exact hsame
      · rw [hcall] at hclose
        cases hclose
    obtain ⟨hwaiting, hle, -, hclaimed, spurious, rfl⟩ :=
      hturn.left_wait (hi.sound t hmem) (hsame.symm.trans hcall) hreturned
    have hbalance := hi.balance t hmem l hlt hturn.not_thrown
    have hraised : t.raised = false := by rw [Thread.raised, hwaiting]
    rw [hraised, tally_false] at hbalance
    -- no read is outstanding, and no callback is past its `fetch_sub`
    have hnone : s.threads.countP (Thread.outstanding l) = 0 := by omega
    rw [hclaimed] at ha
    rcases hi.claims t hmem l hlt hturn.not_thrown a ha with hlocal | ⟨size, next, hposting⟩ |
      ⟨u, hu, hucall, hholding⟩
    · exact hlocal
    · rw [hwaiting] at hposting
      cases hposting
    · rcases hsettles.wait ht hlt hwaiting u hu hucall with hout | hfree
      · exact absurd hout (List.countP_eq_zero.mp hnone u hu)
      · rw [hholding] at hfree
        cases hfree
  · exact hi.returned v (List.mem_of_getElem? hv) l m hcall hreturned a ha

end Taken

theorem turn_limiter (hi : LimiterInv s) (hwins : Wins s (.turn i choice))
    (hsettles : Settles s (.turn i choice)) (h : step cfg s (.turn i choice) = some s') :
    LimiterInv s' := by
  obtain ⟨t, t', effect, ht, hturn, happly⟩ := turn_cases h
  have hmem := List.mem_of_getElem? ht
  obtain ⟨hbooks, htidy'⟩ := hturn.books (hi.tidy t hmem)
  have hnext := apply_nextLimiter happly
  refine ⟨?_, ?_, ?_, ?_, ?_, ?_, ?_, ?_⟩
  · intro v hv
    obtain ⟨j, hj⟩ := List.mem_iff_getElem?.mp hv
    rcases thread_after happly hj with ⟨-, rfl⟩ | ⟨-, hold⟩ | rfl
    · exact htidy'
    · exact hi.tidy v (List.mem_of_getElem? hold)
    · exact hbooks.2.2.2.2.2
  · intro v hv
    obtain ⟨j, hj⟩ := List.mem_iff_getElem?.mp hv
    rcases thread_after happly hj with ⟨-, rfl⟩ | ⟨-, hold⟩ | rfl
    · exact hturn.sound (hi.sound t hmem)
    · exact hi.sound v (List.mem_of_getElem? hold)
    · obtain ⟨l, address, size, next, -, rfl, -⟩ := hturn.poster
      exact callback_sound l address size
  · intro v hv l hl
    rw [hnext]
    obtain ⟨j, hj⟩ := List.mem_iff_getElem?.mp hv
    rcases thread_after happly hj with ⟨-, rfl⟩ | ⟨-, hold⟩ | rfl
    · exact hi.turn_fresh hmem hturn hl
    · exact hi.fresh v (List.mem_of_getElem? hold) l hl
    · obtain ⟨l', address, size, next, hl', rfl, -⟩ := hturn.poster
      rcases hl with hl | hl <;> cases hl
      exact hi.fresh t hmem l (.inl hl')
  · exact fun j k v w l hv hw hlv hlw => hi.turn_unique ht hturn happly hv hw hlv hlw
  · intro v hv l hl hthrown
    obtain ⟨j, hj⟩ := List.mem_iff_getElem?.mp hv
    exact hi.turn_balance ht hturn happly hwins hj hl hthrown
  · intro v hv l hl hthrown a ha
    obtain ⟨j, hj⟩ := List.mem_iff_getElem?.mp hv
    exact hi.turn_claims ht hturn happly hj hl hthrown ha
  · intro v hv l m hcall hreturned a ha
    obtain ⟨j, hj⟩ := List.mem_iff_getElem?.mp hv
    exact hi.turn_returned ht hturn happly hsettles hj hcall hreturned ha
  · intro v hv l m hcall
    obtain ⟨j, hj⟩ := List.mem_iff_getElem?.mp hv
    have hl : v.call.limiter = some l := by rw [hcall]; rfl
    rcases thread_after happly hj with ⟨-, rfl⟩ | ⟨-, hold⟩ | rfl
    · rcases hturn.call with hsame | ⟨-, hclose⟩
      · exact hi.limits t hmem l m (hsame.symm.trans hcall)
      · rw [hcall] at hclose
        cases hclose
    · exact hi.limits v (List.mem_of_getElem? hold) l m hcall
    · obtain ⟨l', address, size, next, -, rfl, -⟩ := hturn.poster
      cases hl

theorem Thread.Sound.outstanding {v : Thread} {l : Nat} (hs : v.Sound)
    (h : v.outstanding l = true) : v.call = .markPageLocalCB l := by
  unfold Thread.outstanding at h
  split at h
  next hcontrol => exact (hs.working hcontrol).2 l (of_decide_eq_true h)
  next => cases h

def Unused (s : State) (l : Nat) : Prop :=
  ∀ v ∈ s.threads, v.call.limiter ≠ some l ∧ v.call ≠ .markPageLocalCB l

theorem LimiterInv.none_outstanding (hi : LimiterInv s) {l : Nat} (h : Unused s l) :
    s.threads.countP (Thread.outstanding l) = 0 := by
  rw [List.countP_eq_zero]
  intro w hw hout
  exact (h w hw).2 ((hi.sound w hw).outstanding hout)

theorem LimiterInv.spawn (hi : LimiterInv s) {u : Thread} (hfree : u.control.Free)
    (hsound : u.Sound) (hclaimed : u.claimed = []) (hcallback : ∀ l, u.call ≠ .markPageLocalCB l)
    (hnew : ∀ l, u.call.limiter = some l →
      l < s.nextLimiter ∧ s.limiter l = 0 ∧ Unused s l ∧ u.raised = false)
    (hlimit : ∀ l m, u.call = .pullPagesAsync l m → 0 ≤ m) : LimiterInv (s.spawn u) := by
  have hmem : ∀ v ∈ (s.spawn u).threads, v ∈ s.threads ∨ v = u := by
    intro v hv
    exact (List.mem_append.mp hv).imp_right List.mem_singleton.mp
  have hcount : ∀ l, (s.spawn u).threads.countP (Thread.outstanding l) =
      s.threads.countP (Thread.outstanding l) := by
    intro l
    show (s.threads ++ [u]).countP _ = _
    rw [countP_concat, Thread.outstanding_of_free hfree, tally_false, Nat.add_zero]
  refine ⟨?_, ?_, ?_, ?_, ?_, ?_, ?_, ?_⟩
  · intro v hv
    rcases hmem v hv with hv | rfl
    · exact hi.tidy v hv
    · exact Thread.tidy_of_free hfree
  · intro v hv
    rcases hmem v hv with hv | rfl
    · exact hi.sound v hv
    · exact hsound
  · intro v hv l hl
    rcases hmem v hv with hv | rfl
    · exact hi.fresh v hv l hl
    · rcases hl with hl | hl
      · exact (hnew l hl).1
      · exact absurd hl (hcallback l)
  · intro i j v w l hv hw hlv hlw
    rcases getElem?_snoc_cases hv with hv' | ⟨hi', rfl⟩
    · rcases getElem?_snoc_cases hw with hw' | ⟨-, rfl⟩
      · exact hi.unique i j v w l hv' hw' hlv hlw
      · exact absurd hlv ((hnew l hlw).2.2.1 v (List.mem_of_getElem? hv')).1
    · rcases getElem?_snoc_cases hw with hw' | ⟨hj', -⟩
      · exact absurd hlw ((hnew l hlv).2.2.1 w (List.mem_of_getElem? hw')).1
      · rw [hi', hj']
  · intro v hv l hl hthrown
    rw [hcount]
    rcases hmem v hv with hv | rfl
    · exact hi.balance v hv l hl hthrown
    · obtain ⟨-, hzero, hunused, hraised⟩ := hnew l hl
      rw [hi.none_outstanding hunused, hraised]
      exact hzero
  · intro v hv l hl hthrown a ha
    rcases hmem v hv with hv | rfl
    · rcases hi.claims v hv l hl hthrown a ha with hlocal | hposting | ⟨w, hw, hfacts⟩
      · exact .inl hlocal
      · exact .inr (.inl hposting)
      · exact .inr (.inr ⟨w, List.mem_append_left _ hw, hfacts⟩)
    · rw [hclaimed] at ha
      cases ha
  · intro v hv l m hcall hreturned a ha
    rcases hmem v hv with hv | rfl
    · exact hi.returned v hv l m hcall hreturned a ha
    · rw [hclaimed] at ha
      cases ha
  · intro v hv l m hcall
    rcases hmem v hv with hv | rfl
    · exact hi.limits v hv l m hcall
    · exact hlimit l m hcall

theorem LimiterInv.malloc (hi : LimiterInv s) (content : Int) : LimiterInv (s.malloc content) := by
  refine ⟨hi.tidy, hi.sound, ?_, hi.unique, ?_, hi.claims, hi.returned, hi.limits⟩
  · exact fun v hv l hl => Nat.lt_succ_of_lt (hi.fresh v hv l hl)
  · intro v hv l hl hthrown
    have hne : l ≠ s.nextLimiter := Nat.ne_of_lt (hi.fresh v hv l (.inl hl))
    show update s.limiter s.nextLimiter content l = _
    rw [update_of_ne hne]
    exact hi.balance v hv l hl hthrown

theorem LimiterInv.spawnAsync (hi : LimiterInv s) {u : Thread} (hfree : u.control.Free)
    (hsound : u.Sound) (hclaimed : u.claimed = [])
    (hl : u.call.limiter = some s.nextLimiter) (hraised : u.raised = false)
    (hcallback : ∀ l, u.call ≠ .markPageLocalCB l)
    (hlimit : ∀ l m, u.call = .pullPagesAsync l m → 0 ≤ m) :
    LimiterInv ((s.malloc 0).spawn u) := by
  refine (hi.malloc 0).spawn hfree hsound hclaimed hcallback ?_ hlimit
  intro l hl'
  obtain rfl : s.nextLimiter = l := Option.some.inj (hl.symm.trans hl')
  refine ⟨Nat.lt_succ_self _, update_self _ _ _, ?_, hraised⟩
  intro v hv
  have hfresh := fun h => Nat.lt_irrefl _ (hi.fresh v hv s.nextLimiter h)
  exact ⟨fun h => hfresh (.inl h), fun h => hfresh (.inr h)⟩

theorem request_limiter (hi : LimiterInv s) {r : Request} (hzeroed : Zeroed (.call r)) :
    LimiterInv (s.request r) := by
  cases r with
  | pullAllPagesWithoutClose | pullPagesSync | pullAllPages =>
      exact hi.spawn trivial trivial rfl (fun _ h => by cases h) (fun _ h => by cases h)
        (fun _ _ h => by cases h)
  | close =>
      exact hi.spawn trivial rfl rfl (fun _ h => by cases h) (fun _ h => by cases h)
        (fun _ _ h => by cases h)
  | pullAllPagesWithoutCloseAsync content =>
      obtain rfl : content = 0 := hzeroed
      exact hi.spawnAsync trivial trivial rfl rfl rfl (fun _ h => by cases h)
        (fun _ _ h => by cases h)
  | pullPagesAsync size limit content =>
      obtain ⟨rfl, hlimit⟩ : content = 0 ∧ 0 ≤ limit := hzeroed
      refine hi.spawnAsync trivial trivial rfl rfl rfl (fun _ h => by cases h) ?_
      intro l m hcall
      cases hcall
      exact hlimit

theorem step_limiter {act : Action} (hi : LimiterInv s) (hok : Paired s act)
    (h : step cfg s act = some s') : LimiterInv s' := by
  obtain ⟨hzeroed, hwins, hsettles⟩ := hok
  cases act with
  | fault a =>
      simp only [step, Option.ite_none_right_eq_some, Option.some.injEq] at h
      obtain ⟨-, rfl⟩ := h
      exact hi.spawn trivial (fun hsome => by cases hsome) rfl (fun _ h => by cases h)
        (fun _ h => by cases h) (fun _ _ h => by cases h)
  | call r =>
      cases h
      exact request_limiter hi hzeroed
  | turn i choice => exact turn_limiter hi hwins hsettles h

theorem quiet_limiter (h : s.threads = []) : LimiterInv s := by
  have hnone : ∀ t : Thread, t ∉ s.threads := by
    intro t ht
    rw [h] at ht
    cases ht
  have hindex : ∀ (i : Nat) (t : Thread), s.threads[i]? ≠ some t :=
    fun i t ht => hnone t (List.mem_of_getElem? ht)
  exact ⟨fun t ht => absurd ht (hnone t), fun t ht => absurd ht (hnone t),
    fun t ht => absurd ht (hnone t), fun i j t u l ht => absurd ht (hindex i t),
    fun t ht => absurd ht (hnone t), fun t ht => absurd ht (hnone t),
    fun t ht => absurd ht (hnone t), fun t ht => absurd ht (hnone t)⟩

end Step

/-! ## The two waits -/

section Waits

variable {cfg : Config} {s : State} {i l : Nat} {t : Thread} {spurious : Bool}

theorem setThread_self (ht : s.threads[i]? = some t) : s.setThread i t = s := by
  obtain ⟨hlt, rfl⟩ := List.getElem?_eq_some_iff.mp ht
  rw [State.setThread, List.set_getElem_self]

theorem limiting_step {cursor : Cursor} (ht : s.threads[i]? = some t)
    (hl : t.call.limiter = some l) (hcontrol : t.control = .limiting cursor) :
    step cfg s (.turn i (.step spurious)) =
      some
    (if t.call.limit cfg < s.limiter l then s else s.setThread i (t.goto (.adding cursor))) := by
  simp only [step, ht, Thread.turn, Thread.advance, hcontrol, hl, Option.bind_eq_bind,
    Option.bind_some, Option.map_some]
  split
  · exact congrArg some (setThread_self ht)
  · rfl

theorem waiting_step (ht : s.threads[i]? = some t) (hl : t.call.limiter = some l)
    (hcontrol : t.control = .waiting) :
    step cfg s (.turn i (.step spurious)) =
      some (if 0 < s.limiter l then s else s.setThread i (t.goto .returned)) := by
  simp only [step, ht, Thread.turn, Thread.advance, hcontrol, hl, Option.bind_eq_bind,
    Option.bind_some, Option.map_some]
  split
  · exact congrArg some (setThread_self ht)
  · rfl

theorem LimiterInv.limit (hi : LimiterInv s) (hmax : 0 ≤ cfg.maxAsyncPending)
    (ht : t ∈ s.threads) : 0 ≤ t.call.limit cfg := by
  cases hcall : t.call with
  | pullPagesAsync l m => exact hi.limits t ht l m hcall
  | sigsegvAdvance | pullAllPagesWithoutClose | pullAllPagesWithoutCloseAsync | pullPagesSync
  | markPageLocalCB | pullAllPages | close => exact hmax

theorem LimiterInv.limiter_eq (hi : LimiterInv s) (ht : t ∈ s.threads)
    (hl : t.call.limiter = some l) (hthrown : t.control ≠ .thrown) (hraised : t.raised = false) :
    s.limiter l = s.threads.countP (Thread.outstanding l) := by
  rw [hi.balance t ht l hl hthrown, hraised, tally_false, Nat.cast_zero, add_zero]

end Waits

/-- Any page states and any threads, from when no thread was at the segment. -/
theorem async_pulls_accounted {cfg : Config} {s₀ s : State} (hmax : 0 ≤ cfg.maxAsyncPending)
    (h₀ : s₀.threads = []) (h : Reaches (step cfg) Paired s₀ s) :
    ∀ (i l : Nat) (t : Thread), s.threads[i]? = some t → t.call.limiter = some l →
      ((∃ cursor, t.control = .scanning cursor) ∨ t.control = .waiting →
        s.limiter l = s.threads.countP (Thread.outstanding l)) ∧
      (s.threads.countP (Thread.outstanding l) = 0 → ∀ spurious,
        (∀ cursor, t.control = .limiting cursor →
          step cfg s (.turn i (.step spurious)) = some (s.setThread i (t.goto (.adding cursor)))) ∧
        (t.control = .waiting →
          step cfg s (.turn i (.step spurious)) = some (s.setThread i (t.goto .returned)))) ∧
      ∀ m, t.call = .pullPagesAsync l m → t.control = .returned →
        ∀ a ∈ t.claimed, entryState s.pages a = some .local := by
  have hi : LimiterInv s :=
    h.invariant (fun _ _ _ hi hok hstep => step_limiter hi hok hstep) (quiet_limiter h₀)
  intro i l t ht hl
  have hmem := List.mem_of_getElem? ht
  refine ⟨?_, ?_, fun m hcall hreturned => hi.returned t hmem l m hcall hreturned⟩
  · rintro (⟨cursor, hcontrol⟩ | hcontrol)
    · exact hi.limiter_eq hmem hl (by simp [hcontrol]) (by simp [Thread.raised, hcontrol])
    · exact hi.limiter_eq hmem hl (by simp [hcontrol]) (by simp [Thread.raised, hcontrol])
  · intro hnone spurious
    constructor
    · intro cursor hcontrol
      have hzero := hi.limiter_eq hmem hl (by simp [hcontrol]) (by simp [Thread.raised, hcontrol])
      have hlimit := hi.limit hmax hmem
      rw [limiting_step ht hl hcontrol, if_neg (by omega)]
    · intro hcontrol
      have hzero := hi.limiter_eq hmem hl (by simp [hcontrol]) (by simp [Thread.raised, hcontrol])
      rw [waiting_step ht hl hcontrol, if_neg (by omega)]

instance (act : Action) : Decidable (Zeroed act) := by
  unfold Zeroed
  split <;> infer_instance

instance (s : State) (act : Action) : Decidable (Wins s act) := by
  unfold Wins
  split
  · split
    · infer_instance
    · split <;> infer_instance
  · infer_instance

instance (s : State) (act : Action) : Decidable (Settles s act) := by
  unfold Settles
  split
  · split
    · infer_instance
    · split <;> infer_instance
  · infer_instance

instance (s : State) (act : Action) : Decidable (Paired s act) :=
  inferInstanceAs (Decidable (_ ∧ _ ∧ _))

def places (s : State) : List (Call × Control) := s.threads.map fun t => (t.call, t.control)

/-- One page, pulled by `PullPagesAsync` with a limit of one read. -/
theorem async_pulls_accounted_one : ∃ s₀ s t,
    s₀.threads = [] ∧ Reaches (step ⟨true, false, 1⟩) Paired s₀ s ∧
    s.threads[0]? = some t ∧ t.call = .pullPagesAsync 0 1 ∧ t.control = .returned ∧
    t.claimed = [2 ^ 44] ∧ entryState s.pages (2 ^ 44) = some .local := by
  have hrun : ((received (2 ^ 44) 4096 (fun _ => true) (fun _ => 7)).bind fun s₀ =>
      checkedRun (step ⟨true, false, 1⟩) Paired s₀
        ([.call (.pullPagesAsync 4096 1 0)] ++ turns 0 4 ++ [.turn 0 (.read true)] ++ turns 0 2 ++
          [.turn 1 .complete] ++ turns 1 5 ++ turns 0 1)).map (·.threads[0]?) =
      some (some ⟨.pullPagesAsync 0 1, .returned, [2 ^ 44]⟩) := by
    decide +kernel
  obtain ⟨s, hs, ht⟩ := Option.map_eq_some_iff.mp hrun
  obtain ⟨s₀, h₀, hacts⟩ := Option.bind_eq_some_iff.mp hs
  have hquiet : s₀.threads = [] := by
    simp only [received, Option.bind_eq_bind, Option.bind_eq_some_iff, Option.pure_def,
      Option.some.injEq] at h₀
    obtain ⟨_, -, _, -, rfl⟩ := h₀
    rfl
  have hreach := reaches_of_checkedRun hacts
  exact ⟨s₀, s, _, hquiet, hreach, ht, rfl, rfl, rfl,
    (async_pulls_accounted (by decide) hquiet hreach 0 0 _ ht rfl).2.2 1 rfl rfl _
      (List.mem_singleton.mpr rfl)⟩

/-- One page. The word of the limiter is not cleared, and the limiting loop never ends.
Of two calls the second finds the page in flight, does not lower its limiter again and
waits for ever. A call returns between the callback's `fetch_sub` and its store. -/
theorem async_pulls_miscounted : ∃ s₀,
    received (2 ^ 44) 4096 (fun _ => true) (fun _ => 0) = some s₀ ∧
    (∃ s, Reaches (step ⟨true, false, 1⟩) anyAction s₀ s ∧
      places s = [(.pullPagesAsync 0 1, .limiting (.address (2 ^ 44) (2 ^ 44 + 4096)))] ∧
      s.limiter 0 = 5 ∧ s.threads.countP (Thread.outstanding 0) = 0 ∧
      ∀ spurious, step ⟨true, false, 1⟩ s (.turn 0 (.step spurious)) = some s) ∧
    (∃ s, Reaches (step ⟨true, false, 1⟩) anyAction s₀ s ∧
      places s = [(.pullPagesAsync 0 1, .returned), (.pullPagesAsync 1 1, .waiting),
        (.markPageLocalCB 0, .returned)] ∧
      s.limiter 1 = 1 ∧ s.threads.countP (Thread.outstanding 1) = 0 ∧
      ∀ spurious, step ⟨true, false, 1⟩ s (.turn 1 (.step spurious)) = some s) ∧
    ∃ s t, Reaches (step ⟨true, false, 1⟩) anyAction s₀ s ∧ s.threads[0]? = some t ∧
      t.call = .pullPagesAsync 0 1 ∧ t.control = .returned ∧ t.claimed = [2 ^ 44] ∧
      entryState s.pages (2 ^ 44) = some .inFlight := by
  have huncleared : ((received (2 ^ 44) 4096 (fun _ => true) (fun _ => 0)).bind fun s₀ =>
      run (step ⟨true, false, 1⟩) s₀ (.call (.pullPagesAsync 4096 1 5) :: turns 0 1)).map
      (fun s => (places s, s.limiter 0, s.threads.countP (Thread.outstanding 0), s.threads[0]?)) =
      some ([(.pullPagesAsync 0 1, .limiting (.address (2 ^ 44) (2 ^ 44 + 4096)))], 5, 0,
        some ⟨.pullPagesAsync 0 1, .limiting (.address (2 ^ 44) (2 ^ 44 + 4096)), []⟩) := by
    decide +kernel
  have hlost : ((received (2 ^ 44) 4096 (fun _ => true) (fun _ => 0)).bind fun s₀ =>
      run (step ⟨true, false, 1⟩) s₀
        ([.call (.pullPagesAsync 4096 1 0), .call (.pullPagesAsync 4096 1 0)] ++ turns 0 4 ++
          turns 1 5 ++ [.turn 0 (.read true)] ++ turns 0 1 ++ [.turn 2 .complete] ++ turns 2 5 ++
          turns 0 1)).map
      (fun s => (places s, s.limiter 1, s.threads.countP (Thread.outstanding 1), s.threads[1]?)) =
      some ([(.pullPagesAsync 0 1, .returned), (.pullPagesAsync 1 1, .waiting),
        (.markPageLocalCB 0, .returned)], 1, 0, some ⟨.pullPagesAsync 1 1, .waiting, []⟩) := by
    decide +kernel
  have hearly : ((received (2 ^ 44) 4096 (fun _ => true) (fun _ => 0)).bind fun s₀ =>
      run (step ⟨true, false, 1⟩) s₀ ([.call (.pullPagesAsync 4096 1 0)] ++ turns 0 4 ++
        [.turn 0 (.read true)] ++ turns 0 1 ++ [.turn 1 .complete] ++ turns 1 2 ++ turns 0 1)).map
      (fun s => (s.threads[0]?, entryState s.pages (2 ^ 44))) =
      some (some ⟨.pullPagesAsync 0 1, .returned, [2 ^ 44]⟩, some .inFlight) := by
    decide +kernel
  obtain ⟨s₁, hs₁, hfacts₁⟩ := Option.map_eq_some_iff.mp huncleared
  obtain ⟨s₂, hs₂, hfacts₂⟩ := Option.map_eq_some_iff.mp hlost
  obtain ⟨s₃, hs₃, hfacts₃⟩ := Option.map_eq_some_iff.mp hearly
  obtain ⟨s₀, h₀, hacts₁⟩ := Option.bind_eq_some_iff.mp hs₁
  rw [h₀, Option.bind_some] at hs₂ hs₃
  simp only [Prod.mk.injEq] at hfacts₁ hfacts₂ hfacts₃
  obtain ⟨hplaces₁, hlimiter₁, hnone₁, ht₁⟩ := hfacts₁
  obtain ⟨hplaces₂, hlimiter₂, hnone₂, ht₂⟩ := hfacts₂
  refine ⟨s₀, h₀, ⟨s₁, reaches_of_run hacts₁, hplaces₁, hlimiter₁, hnone₁, ?_⟩,
    ⟨s₂, reaches_of_run hs₂, hplaces₂, hlimiter₂, hnone₂, ?_⟩,
    s₃, _, reaches_of_run hs₃, hfacts₃.1, rfl, rfl, rfl, hfacts₃.2⟩
  · intro spurious
    rw [limiting_step ht₁ rfl rfl, hlimiter₁, if_pos (by decide)]
  · intro spurious
    rw [waiting_step ht₂ rfl rfl, hlimiter₂, if_pos (by decide)]

end RdmaMigration.Paging.Threads
