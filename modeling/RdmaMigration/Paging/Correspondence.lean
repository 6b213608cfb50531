import RdmaMigration.Lib.Simulation
import RdmaMigration.Lib.Update
import RdmaMigration.Paging.Threads

/-! # One segment, two machines

`Machine` keeps the bytes and has the fault handler and the two prefetchers only;
`Threads` has every call and no bytes. What they share they do in the same way: a run of
`Threads` in which nothing else is called and no call fails is a run of `Machine`, with the
same page table, the same protection and the same completed reads. A thread runs in the
slot of its number; `slot k` is the number of the thread that allocates the word `k`.
-/

namespace RdmaMigration.Paging.Threads.Correspondence

open Lib Function

/-- Only the fault handler and the prefetchers are called, no read is refused and no thread
throws. -/
def Shared (cfg : Config) (slot : Nat → Nat) (u : State) (a : Action) : Prop :=
  (match a with
    | .fault _ | .call .pullAllPagesWithoutClose => True
    | .call (.pullAllPagesWithoutCloseAsync content) =>
        content = u.limiter u.nextLimiter ∧ slot u.nextLimiter = u.threads.length
    | .call _ => False
    | .turn _ choice => choice ≠ .read false) ∧
  ∀ u', step cfg u a = some u' → ∀ t ∈ u'.threads, t.control ≠ .thrown

/-! ## A thread and its slot -/

section Shows

variable (slot : Nat → Nat)

def inSlot : Atomic → Atomic
  | .release k => .release (slot k)
  | op => op

inductive Pulls (i : Nat) : Call → Bool → Prop where
  | sync : Pulls i .pullAllPagesWithoutClose false
  | async {k : Nat} (h : slot k = i) : Pulls i (.pullAllPagesWithoutCloseAsync k) true

/-- Where a thread goes on after its job. -/
inductive Returns : Call → Option Cursor → Paging.Control → Prop where
  | fault : Returns .sigsegvAdvance none (.working none)
  | pull {copy : List PageState} {id : Nat} :
      Returns .pullAllPagesWithoutClose (some (.index copy id)) (.working (some (copy, id)))
  | callback {k : Nat} : Returns (.markPageLocalCB k) none .idle

def pageOf (p : Pages) (id : Nat) : Nat × Nat := (p.getPageAddressOfId id, p.getPageSizeOfId id)

/-- `page` gives the address and the size of a page by its number. -/
inductive Shows (page : Nat → Nat × Nat) (i : Nat) :
    Call → Control → Paging.Control → Option Job → Prop where
  | faulted {address size : Nat} : Shows page i .sigsegvAdvance (.claiming address size none)
      (.faulted address size) none
  | copying {call : Call} {async : Bool} {copy : List PageState} (h : Pulls slot i call async) :
      Shows page i call (.copying copy) (.copying async copy) none
  | scanning {call : Call} {async : Bool} {copy : List PageState} {id : Nat}
      (h : Pulls slot i call async) :
      Shows page i call (.scanning (.index copy id)) (.scanning async copy id) none
  | limiting {call : Call} {copy : List PageState} {id : Nat} (h : Pulls slot i call true) :
      Shows page i call (.limiting (.index copy id)) (.limiting copy id) none
  | adding {call : Call} {copy : List PageState} {id : Nat} (h : Pulls slot i call true) :
      Shows page i call (.adding (.index copy id)) (.adding copy id) none
  | claiming {call : Call} {async : Bool} {copy : List PageState} {id : Nat}
      (h : Pulls slot i call async) :
      Shows page i call (.claiming (page id).1 (page id).2 (some (.index copy (id + 1))))
        (.claiming async copy id) none
  | posting {call : Call} {copy : List PageState} {id address size : Nat}
      (h : Pulls slot i call true) :
      Shows page i call (.posting address size (some (.index copy (id + 1)))) (.posting copy id)
        (some ⟨address, size, pullPageAsync i⟩)
  | working {call : Call} {cursor : Option Cursor} {c : Paging.Control} {address size : Nat}
      {ops : List Atomic} (h : Returns call cursor c) :
      Shows page i call (.working address size ops cursor) c
        (some ⟨address, size, ops.map (inSlot slot)⟩)
  | returned {call : Call} : Shows page i call .returned .idle none

structure Follows (u : State) (s : Paging.State) : Prop where
  pages : s.pages = u.pages
  accessible : s.accessible = u.accessible
  completed : s.completed = u.reads
  word : s.limiter ∘ slot = u.limiter
  seats : ∀ i t, u.threads[i]? = some t →
    Shows slot (pageOf u.pages) i t.call t.control (s.control i) (s.job i)
  free : ∀ i, u.threads.length ≤ i → s.Free i

def Answered (env : Environment) (s : Paging.State) (u' : State) : Prop :=
  ∃ a s', Paging.step env s a = some s' ∧ Follows slot u' s'

end Shows

/-! ## The steps -/

section Steps

variable {cfg : Config} {env : Environment} {slot : Nat → Nat} {u u' : State}
  {s s' : Paging.State} {i : Nat} {t t' : Thread} {c : Paging.Control} {job : Option Job}

theorem Follows.turn (h : Follows slot u s) (hi : u.threads[i]? = some t)
    (hthreads : u'.threads = u.threads.set i t')
    (hcontrol : s'.control = update s.control i c)
    (hjob : s'.job = update s.job i job) (hpages : s'.pages = u'.pages)
    (hpage : pageOf u'.pages = pageOf u.pages) (haccessible : s'.accessible = u'.accessible)
    (hcompleted : s'.completed = u'.reads) (hword : s'.limiter ∘ slot = u'.limiter)
    (hshows : Shows slot (pageOf u.pages) i t'.call t'.control c job) : Follows slot u' s' := by
  have hlt : i < u.threads.length := (List.getElem?_eq_some_iff.mp hi).1
  refine ⟨hpages, haccessible, hcompleted, hword, fun i' th hth => ?_, fun i' hi' => ?_⟩
  · rw [hpage, hcontrol, hjob]
    rw [hthreads] at hth
    by_cases heq : i' = i
    · subst heq
      rw [List.getElem?_set_self hlt, Option.some.injEq] at hth
      rwa [update_self, update_self, ← hth]
    · rw [List.getElem?_set_ne (Ne.symm heq)] at hth
      rw [update_of_ne heq, update_of_ne heq]
      exact h.seats i' th hth
  · rw [hthreads, List.length_set] at hi'
    have hne : i' ≠ i := Nat.ne_of_gt (hlt.trans_le hi')
    rw [Paging.State.Free, hcontrol, hjob, update_of_ne hne, update_of_ne hne]
    exact h.free i' hi'

theorem Follows.spawn {n : Nat} (h : Follows slot u s) (hn : u.threads.length = n)
    (hthreads : u'.threads = u.threads ++ [t])
    (hcontrol : s'.control = update s.control n c)
    (hjob : s'.job = update s.job n job) (hpages : s'.pages = u'.pages)
    (hpage : u'.pages = u.pages) (haccessible : s'.accessible = u'.accessible)
    (hcompleted : s'.completed = u'.reads) (hword : s'.limiter ∘ slot = u'.limiter)
    (hshows : Shows slot (pageOf u.pages) n t.call t.control c job) : Follows slot u' s' := by
  subst hn
  refine ⟨hpages, haccessible, hcompleted, hword, fun i th hth => ?_, fun i hi => ?_⟩
  · rw [hpage, hcontrol, hjob]
    rw [hthreads] at hth
    rcases getElem?_snoc_cases hth with hold | ⟨rfl, rfl⟩
    · have hne : i ≠ u.threads.length := Nat.ne_of_lt (List.getElem?_eq_some_iff.mp hold).1
      rw [update_of_ne hne, update_of_ne hne]
      exact h.seats i th hold
    · rwa [update_self, update_self]
  · rw [hthreads, List.length_append, List.length_singleton] at hi
    have hne : i ≠ u.threads.length := Nat.ne_of_gt hi
    rw [Paging.State.Free, hcontrol, hjob, update_of_ne hne, update_of_ne hne]
    exact h.free i (Nat.le_of_succ_le hi)

theorem Follows.starts (h : Follows slot u s) (hpages : u'.pages = u.pages)
    (haccessible : u'.accessible = u.accessible) (hreads : u'.reads = u.reads)
    (hlimiter : u'.limiter = u.limiter) (hthreads : u'.threads = u.threads ++ [t])
    (hshows : Shows slot (pageOf u.pages) u.threads.length t.call t.control c none) :
    Follows slot u' (s.setControl u.threads.length c) := by
  refine h.spawn rfl hthreads rfl ?_ (h.pages.trans hpages.symm) hpages
    (h.accessible.trans haccessible.symm) (h.completed.trans hreads.symm)
    (h.word.trans hlimiter.symm) hshows
  rw [← (h.free _ le_rfl).2, update_eq_self]
  rfl

theorem goes {control : Control} (a : Paging.Action) (h : Follows slot u s)
    (hi : u.threads[i]? = some t) (hjob : s.job i = none)
    (hshows : Shows slot (pageOf u.pages) i t.call control c none)
    (hstep : Paging.step env s a = some (s.setControl i c)) :
    Answered slot env s (u.setThread i (t.goto control)) := by
  refine ⟨a, _, hstep, h.turn hi rfl rfl ?_ h.pages rfl h.accessible h.completed h.word hshows⟩
  rw [← hjob, update_eq_self]
  rfl

theorem wins {control : Control} {claimed : List Nat} {address size : Nat} {ops : List Atomic}
    (h : Follows slot u s) (hi : u.threads[i]? = some t)
    (hshows : Shows slot (pageOf u.pages) i t.call control c (some ⟨address, size, ops⟩))
    (hstep : Paging.step env s (.control i false 0) = some (takePage s i address size ops c)) :
    Answered slot env s { u.setThread i ⟨t.call, control, claimed⟩ with
      pages := u.pages.store (u.pages.pageId address) .inFlight } := by
  refine ⟨_, _, hstep, h.turn hi rfl rfl rfl ?_ rfl h.accessible h.completed h.word hshows⟩
  rw [takePage, h.pages]

theorem works {cursor : Option Cursor} {address size : Nat} {ops : List Atomic}
    {limiter : Nat → Int} (a : Paging.Action) (memory : Nat → UInt8) (posted : List (Nat × Nat))
    (h : Follows slot u s) (hi : u.threads[i]? = some t) (hc : s.control i = c)
    (hret : Returns t.call cursor c)
    (hthreads : u'.threads = u.threads.set i (t.goto (.working address size ops cursor)))
    (hpage : pageOf u'.pages = pageOf u.pages) (hword : limiter ∘ slot = u'.limiter)
    (hstep : Paging.step env s a = some { s with
      pages := u'.pages
      accessible := u'.accessible
      memory := memory
      job := update s.job i (some ⟨address, size, ops.map (inSlot slot)⟩)
      limiter := limiter
      posted := posted
      completed := u'.reads }) : Answered slot env s u' := by
  refine ⟨a, _, hstep, h.turn hi hthreads ?_ rfl rfl hpage rfl rfl hword (.working hret)⟩
  rw [← hc, update_eq_self]

theorem posts {copy : List PageState} {id k address size : Nat} {claimed : List Nat}
    (h : Follows slot u s) (hc : s.control (slot k) = .posting copy id)
    (hj : s.job (slot k) = some ⟨address, size, pullPageAsync (slot k)⟩)
    (hi : u.threads[slot k]? = some ⟨.pullAllPagesWithoutCloseAsync k,
      .posting address size (some (.index copy (id + 1))), claimed⟩) :
    Answered slot env s ((u.setThread (slot k) ⟨.pullAllPagesWithoutCloseAsync k,
      .scanning (.index copy (id + 1)), claimed⟩).spawn (callback k address size)) := by
  let s₁ : Paging.State :=
    (s.setJob (slot k) none).setControl (slot k) (.scanning true copy (id + 1))
  have h₁ : Follows slot (u.setThread (slot k) ⟨.pullAllPagesWithoutCloseAsync k,
      .scanning (.index copy (id + 1)), claimed⟩) s₁ :=
    h.turn hi rfl rfl rfl h.pages rfl h.accessible h.completed h.word (.scanning (.async rfl))
  have hlength : (u.setThread (slot k) ⟨.pullAllPagesWithoutCloseAsync k,
      .scanning (.index copy (id + 1)), claimed⟩).threads.length = u.threads.length :=
    List.length_set ..
  have hstep : Paging.step env s (.control (slot k) false u.threads.length) =
      some { s₁.setJob u.threads.length
          (some ⟨address, size, (.await :: markPageLocalCB k).map (inSlot slot)⟩) with
        posted := (address, size) :: s.posted } := by
    simp only [Paging.step, controlStep, hc, hj, pullPageAsync,
      if_pos (h.free u.threads.length le_rfl)]
    rfl
  refine ⟨_, _, hstep, h₁.spawn hlength rfl ?_ rfl h.pages rfl h.accessible h.completed h.word
    (.working .callback)⟩
  rw [← (h₁.free u.threads.length (Nat.le_of_eq hlength)).1, update_eq_self]
  rfl

theorem scans {async : Bool} {copy : List PageState} {id : Nat}
    (hc : s.control i = .scanning async copy id) (p : Pages) :
    Paging.step env s (.control i false 0) =
      some (s.setControl i (match (Cursor.index copy id).head p with
        | .ended => .idle
        | .skip => .scanning async copy (id + 1)
        | _ => if async then .limiting copy id else .claiming false copy id)) := by
  simp only [Paging.step, controlStep, hc, Cursor.head]
  cases copy[id]? with
  | none => rfl
  | some state => cases state <;> rfl

theorem claims {address size : Nat} {ops : List Atomic} {won lost : Paging.Control}
    {state : PageState} (h : Follows slot u s)
    (hstate : u.pages.at? (u.pages.pageId address) = some state) :
    claim s i address size ops won lost true = some (s.setControl i lost) ∧
      (state = .remote → claim s i address size ops won lost false =
        some (takePage s i address size ops won)) := by
  rw [← h.pages] at hstate
  refine ⟨by simp [claim, Pages.compareExchangeWeak, hstate], ?_⟩
  rintro rfl
  simp [claim, Pages.compareExchangeWeak, hstate]

/-! ### By what the thread is at -/

section Turn

variable {choice : Choice} {effect : Effect} {call : Call} {claimed : List Nat}
  (h : Follows slot u s) (happly : (u.setThread i t').apply effect = some u')

include h happly

theorem copying_answered {async : Bool} {copy : List PageState} (hp : Pulls slot i call async)
    (hi : u.threads[i]? = some ⟨call, .copying copy, claimed⟩)
    (hc : s.control i = .copying async copy) (hj : s.job i = none)
    (hturn : Turned cfg u ⟨call, .copying copy, claimed⟩ choice t' effect) :
    Answered slot env s u' := by
  cases hturn with
  | copied hcontrol hstate =>
      cases hcontrol
      cases happly
      refine goes (.control i false 0) h hi hj (.copying hp) ?_
      simp [Paging.step, controlStep, hc, h.pages, hstate]
  | begun hcontrol hend =>
      cases hcontrol
      cases happly
      refine goes (.control i false 0) h hi hj (.scanning hp) ?_
      simp [Paging.step, controlStep, hc, h.pages, hend]
  | _ => contradiction

theorem scanning_answered {async : Bool} {copy : List PageState} {id : Nat}
    (hthrown : ∀ t ∈ u'.threads, t.control ≠ .thrown) (hp : Pulls slot i call async)
    (hi : u.threads[i]? = some ⟨call, .scanning (.index copy id), claimed⟩)
    (hc : s.control i = .scanning async copy id) (hj : s.job i = none)
    (hturn : Turned cfg u ⟨call, .scanning (.index copy id), claimed⟩ choice t' effect) :
    Answered slot env s u' := by
  cases hturn with
  | ended hcontrol hhead =>
      cases hcontrol
      cases happly
      refine goes _ h hi hj ?_ (by rw [scans hc, hhead])
      cases hp <;> exact .returned
  | skipped hcontrol hhead =>
      cases hcontrol
      cases happly
      exact goes _ h hi hj (.scanning hp) (by rw [scans hc, hhead])
  | queued hcontrol hhead hl =>
      cases hcontrol
      cases happly
      cases hp with
      | sync => cases hl
      | async hk => exact goes _ h hi hj (.limiting (.async hk)) (by rw [scans hc, hhead]; rfl)
  | chosen hcontrol hhead hl =>
      cases hcontrol
      cases happly
      cases hp with
      | sync => exact goes _ h hi hj (.claiming .sync) (by rw [scans hc, hhead]; rfl)
      | async => cases hl
  | outOfRange =>
      cases happly
      exact absurd rfl (hthrown _ (List.mem_set (List.getElem?_eq_some_iff.mp hi).1 _))
  | _ => contradiction

theorem limiting_answered {k id : Nat} {copy : List PageState} (hk : slot k = i)
    (hcfg : cfg.maxAsyncPending = env.maxAsyncPending)
    (hi : u.threads[i]? =
      some ⟨.pullAllPagesWithoutCloseAsync k, .limiting (.index copy id), claimed⟩)
    (hc : s.control i = .limiting copy id) (hj : s.job i = none)
    (hturn : Turned cfg u ⟨.pullAllPagesWithoutCloseAsync k, .limiting (.index copy id), claimed⟩
      choice t' effect) : Answered slot env s u' := by
  have hword : u.limiter k = s.limiter i := by rw [← h.word, comp_apply, hk]
  cases hturn with
  | spun _ hl hlimit =>
      cases happly
      cases hl
      rw [hword] at hlimit
      have hstay : update s.control i (.limiting copy id) = s.control := by
        rw [← hc, update_eq_self]
      refine goes (.control i false 0) h hi hj (.limiting (.async hk)) ?_
      simp only [Paging.step, controlStep, hc, Paging.State.setControl, hstay, ← hcfg]
      exact if_pos hlimit
  | admitted hcontrol hl hlimit =>
      cases hcontrol
      cases happly
      cases hl
      rw [hword] at hlimit
      refine goes (.control i false 0) h hi hj (.adding (.async hk)) ?_
      simp only [Paging.step, controlStep, hc, ← hcfg]
      exact if_neg hlimit
  | _ => contradiction

theorem claiming_answered {async : Bool} {copy : List PageState} {id : Nat}
    (hthrown : ∀ t ∈ u'.threads, t.control ≠ .thrown) (hp : Pulls slot i call async)
    (hi : u.threads[i]? = some ⟨call, .claiming (pageOf u.pages id).1 (pageOf u.pages id).2
      (some (.index copy (id + 1))), claimed⟩)
    (hc : s.control i = .claiming async copy id) (hj : s.job i = none)
    (hturn : Turned cfg u ⟨call, .claiming (pageOf u.pages id).1 (pageOf u.pages id).2
      (some (.index copy (id + 1))), claimed⟩ choice t' effect) : Answered slot env s u' := by
  cases hturn with
  | lost hcontrol _ hstate =>
      cases hcontrol
      cases happly
      refine goes (.control i true 0) h hi hj (.scanning hp) ?_
      cases hp <;> simp only [Paging.step, controlStep, hc, h.pages] <;>
        exact (claims h hstate).1
  | wonAsync hcontrol hremote hl =>
      cases hcontrol
      cases happly
      cases hp with
      | sync => cases hl
      | async hk =>
          refine wins h hi (.posting (.async hk)) ?_
          simp only [Paging.step, controlStep, hc, h.pages]
          exact (claims h hremote).2 rfl
  | wonSync hcontrol hremote hl =>
      cases hcontrol
      cases happly
      cases hp with
      | sync =>
          refine wins h hi (.working .pull) ?_
          simp only [Paging.step, controlStep, hc, h.pages]
          exact (claims h hremote).2 rfl
      | async => cases hl
  | raised =>
      cases happly
      exact absurd rfl (hthrown _ (List.mem_set (List.getElem?_eq_some_iff.mp hi).1 _))
  | _ => contradiction

theorem faulted_answered {address size : Nat}
    (hthrown : ∀ t ∈ u'.threads, t.control ≠ .thrown)
    (hi : u.threads[i]? = some ⟨.sigsegvAdvance, .claiming address size none, claimed⟩)
    (hc : s.control i = .faulted address size) (hj : s.job i = none)
    (hturn : Turned cfg u ⟨.sigsegvAdvance, .claiming address size none, claimed⟩ choice t'
      effect) : Answered slot env s u' := by
  cases hturn with
  | lost hcontrol _ hstate =>
      cases hcontrol
      cases happly
      refine goes (.control i true 0) h hi hj .returned ?_
      simp only [Paging.step, controlStep, hc, claims h hstate]
  | wonAsync _ _ hl => cases hl
  | wonSync hcontrol hremote =>
      cases hcontrol
      cases happly
      refine wins h hi (.working .fault) ?_
      simp only [Paging.step, controlStep, hc]
      exact (claims h hremote).2 rfl
  | raised =>
      cases happly
      exact absurd rfl (hthrown _ (List.mem_set (List.getElem?_eq_some_iff.mp hi).1 _))
  | _ => contradiction

theorem working_answered {cursor : Option Cursor} {address size : Nat} {ops : List Atomic}
    (hword : ∀ (f : Int → Int) k, update s.limiter (slot k) (f (s.limiter (slot k))) ∘ slot =
      update u.limiter k (f (u.limiter k)))
    (hchoice : choice ≠ .read false) (hret : Returns call cursor c)
    (hi : u.threads[i]? = some ⟨call, .working address size ops cursor, claimed⟩)
    (hc : s.control i = c) (hj : s.job i = some ⟨address, size, ops.map (inSlot slot)⟩)
    (hturn : Turned cfg u ⟨call, .working address size ops cursor, claimed⟩ choice t' effect) :
    Answered slot env s u' := by
  cases hturn with
  | finished hcontrol =>
      cases hcontrol
      cases happly
      refine ⟨.op i, (s.setJob i none).setControl i (Paging.resume c), ?_, h.turn hi rfl rfl
        rfl h.pages rfl h.accessible h.completed h.word ?_⟩
      · cases hret <;> simp [Paging.step, opStep, hc, hj]
      · cases hret with
        | fault | callback => exact .returned
        | pull => exact .scanning .sync
  | completed hcontrol =>
      cases hcontrol
      cases happly
      refine works (.complete i) (fun a => if Covers (address, size) a then env.source a
        else s.memory a) s.posted h hi hc hret rfl rfl h.word ?_
      simp [Paging.step, completeStep, hj, inSlot, Paging.State.setJob,
        State.setThread, ← h.pages, ← h.accessible, ← h.completed]
  | sent hcontrol =>
      cases hcontrol
      cases happly
      refine works (.op i) s.memory ((address, size) :: s.posted) h hi hc hret rfl rfl h.word ?_
      cases hret <;> simp [Paging.step, opStep, hc, hj, inSlot, Paging.State.setJob,
        State.setThread, ← h.pages, ← h.accessible, ← h.completed]
  | unprotected hcontrol =>
      cases hcontrol
      obtain ⟨accessible, hprotect, rfl⟩ := Option.map_eq_some_iff.mp happly
      replace hprotect : mprotect address size true s.accessible = some accessible :=
        h.accessible ▸ hprotect
      refine works (.op i) s.memory s.posted h hi hc hret rfl rfl h.word ?_
      cases hret <;> simp [Paging.step, opStep, hc, hj, inSlot, Paging.State.setJob,
        State.setThread, ← h.pages, ← h.completed, hprotect]
  | stored hcontrol =>
      cases hcontrol
      obtain ⟨state, hstate, rfl⟩ := Option.map_eq_some_iff.mp happly
      replace hstate : s.pages.at? (s.pages.pageId address) = some state := h.pages ▸ hstate
      refine works (.op i) s.memory s.posted h hi hc hret rfl rfl h.word ?_
      cases hret <;> simp [Paging.step, opStep, hc, hj, inSlot, Paging.State.setJob,
        State.setThread, ← h.pages, ← h.accessible, ← h.completed, hstate]
  | counted hcontrol =>
      cases hcontrol
      cases happly
      refine works (.op i) s.memory s.posted h hi hc hret rfl rfl h.word ?_
      cases hret <;> simp [Paging.step, opStep, hc, hj, inSlot, Paging.State.setJob,
        State.setThread, ← h.pages, ← h.accessible, ← h.completed]
  | @released _ _ _ k _ _ hcontrol =>
      cases hcontrol
      cases happly
      refine works (.op i) s.memory s.posted h hi hc hret rfl rfl (hword (· - 1) k) ?_
      cases hret <;> simp [Paging.step, opStep, hc, hj, inSlot, Paging.State.setJob,
        State.setThread, ← h.pages, ← h.accessible, ← h.completed]
  | refused | ignored => exact absurd rfl hchoice
  | _ => contradiction

theorem turn_answered (hslot : slot.Injective)
    (hcfg : cfg.maxAsyncPending = env.maxAsyncPending) (hi : u.threads[i]? = some t)
    (hturn : Turned cfg u t choice t' effect) (hchoice : choice ≠ .read false)
    (hthrown : ∀ t ∈ u'.threads, t.control ≠ .thrown) : Answered slot env s u' := by
  obtain ⟨call, control, claimed⟩ := t
  have hword : ∀ (f : Int → Int) k, update s.limiter (slot k) (f (s.limiter (slot k))) ∘
      slot = update u.limiter k (f (u.limiter k)) := by
    intro f k
    rw [update_comp_eq_of_injective _ hslot, h.word, ← h.word]
    rfl
  have hshow := h.seats i _ hi
  generalize hc : s.control i = c at hshow
  generalize hj : s.job i = job at hshow
  cases hshow with
  | faulted => exact faulted_answered h happly hthrown hi hc hj hturn
  | copying hp => exact copying_answered h happly hp hi hc hj hturn
  | scanning hp => exact scanning_answered h happly hthrown hp hi hc hj hturn
  | limiting hp =>
      cases hp with
      | async hk => exact limiting_answered h happly hk hcfg hi hc hj hturn
  | @adding _ copy id hp =>
      cases hp with
      | @async k hk =>
          subst hk
          cases hturn with
          | added hcontrol hl =>
              cases hcontrol
              cases happly
              cases hl
              refine ⟨.control (slot k) false 0, {
                s.setControl (slot k) (.claiming true copy id) with
                limiter := update s.limiter (slot k) (s.limiter (slot k) + 1) }, ?_,
                h.turn hi rfl rfl ?_ h.pages rfl h.accessible h.completed (hword (· + 1) k)
                (.claiming (.async rfl))⟩
              · simp only [Paging.step, controlStep, hc]
              · rw [← hj, update_eq_self]
                rfl
          | _ => contradiction
  | claiming hp => exact claiming_answered h happly hthrown hp hi hc hj hturn
  | posting hp =>
      cases hp with
      | async hk =>
          subst hk
          cases hturn with
          | posted hcontrol hl =>
              cases hcontrol
              cases happly
              cases hl
              exact posts h hc hj hi
          | refusedAsync => exact absurd rfl hchoice
          | _ => contradiction
  | working hret => exact working_answered h happly hword hchoice hret hi hc hj hturn
  | returned => cases hturn <;> contradiction

end Turn

theorem step_answered {a : Action} (hslot : slot.Injective)
    (hcfg : cfg.maxAsyncPending = env.maxAsyncPending) (h : Follows slot u s)
    (hok : Shared cfg slot u a) (hstep : step cfg u a = some u') : Answered slot env s u' := by
  obtain ⟨hcall, hthrown⟩ := hok
  have hfree := h.free u.threads.length le_rfl
  cases a with
  | fault a =>
      obtain ⟨hinside, heq⟩ := Option.ite_none_right_eq_some.mp hstep
      cases heq
      refine ⟨.fault u.threads.length a, _, ?_, h.starts rfl rfl rfl rfl rfl .faulted⟩
      rw [State.Inside, ← h.pages] at hinside
      rw [← h.pages]
      exact if_pos ⟨hfree, hinside⟩
  | call r =>
      cases hstep
      cases r with
      | pullAllPagesWithoutClose =>
          exact ⟨.start u.threads.length false, _, if_pos hfree,
            h.starts rfl rfl rfl rfl rfl (.copying .sync)⟩
      | pullAllPagesWithoutCloseAsync content =>
          refine ⟨.start u.threads.length true, _, if_pos hfree,
            h.starts rfl rfl rfl ?_ rfl (.copying (.async hcall.2))⟩
          rw [hcall.1]
          exact update_eq_self ..
      | _ => exact absurd hcall id
  | turn i choice =>
      obtain ⟨t, t', effect, hi, hturn, happly⟩ := turn_cases hstep
      exact turn_answered h happly hslot hcfg hi hturn hcall (hthrown u' hstep)

end Steps

/-- Such a run of `Threads` after `on_transfer` is one of `Machine`. -/
theorem threads_run_as_machine {cfg : Config} {env : Environment} {slot : Nat → Nat}
    (hslot : slot.Injective) (hcfg : cfg.maxAsyncPending = env.maxAsyncPending)
    {start size : Nat} {memory : Nat → UInt8} {accessible : Nat → Bool} {limiter : Nat → Int}
    {u₀ u : State} (h₀ : received start size accessible (limiter ∘ slot) = some u₀)
    (h : Reaches (step cfg) (Shared cfg slot) u₀ u) :
    ∃ s₀ s, onTransfer start size memory accessible limiter = some s₀ ∧
      Reaches (Paging.step env) anyAction s₀ s ∧
      s.pages = u.pages ∧ s.accessible = u.accessible ∧ s.completed = u.reads := by
  simp only [received, Option.bind_eq_bind, Option.bind_eq_some_iff, Option.pure_def,
    Option.some.injEq] at h₀
  obtain ⟨pages, hpages, protection, hprotect, rfl⟩ := h₀
  let s₀ : Paging.State := ⟨pages, protection, memory, fun _ => .idle, fun _ => none, limiter, [],
    [], fun _ => false⟩
  have hs₀ : onTransfer start size memory accessible limiter = some s₀ := by
    simp [onTransfer, hpages, hprotect, s₀]
  have hfollows₀ : Follows slot ⟨pages, protection, [], limiter ∘ slot, 0, []⟩ s₀ :=
    ⟨rfl, rfl, rfl, rfl, fun _ _ h => (by cases h), fun _ _ => ⟨rfl, rfl⟩⟩
  obtain ⟨s, hreach, hfollows⟩ := Reaches.simulated (fun u a u' s hs hok hstep => by
    obtain ⟨a', s', hs', hfollows⟩ := step_answered hslot hcfg hs hok hstep
    exact ⟨s', (Reaches.refl _ _ s).snoc trivial hs', hfollows⟩) hfollows₀ h
  exact ⟨s₀, s, hs₀, hreach, hfollows.pages, hfollows.accessible, hfollows.completed⟩

end RdmaMigration.Paging.Threads.Correspondence
