import RdmaMigration.Lib.Count
import RdmaMigration.Paging.Machine

/-! # The threads of one segment

Every call that touches the pages of a received segment: the fault handler, the two
prefetchers, `PullPagesSync`, `PullPagesAsync`, `PullAllPages` and `close`, any number
of each, and the callbacks of the asynchronous reads. A thread takes one atomic
operation at a time; a turn is computed from the thread and the shared state and
has at most one effect on what is shared. `Pull` may return -1 at any time, which
the fault handler turns into an exception and the other callers ignore. `user_mutex`,
which `rdma_read` holds while it waits, is left out: with it fewer interleavings remain.
-/

namespace RdmaMigration.Paging.Threads

open Lib Function

structure Config where
  prefetching : Bool
  faultTolerant : Bool
  maxAsyncPending : Int

/-- The function a thread is in. A limiter is named by the number of the call that
allocated it. `close` is marked when `PullAllPages` called it. -/
inductive Call where
  | sigsegvAdvance
  | pullAllPagesWithoutClose
  | pullAllPagesWithoutCloseAsync (limiter : Nat)
  | pullPagesSync
  | pullPagesAsync (limiter : Nat) (maxAsyncLimit : Int)
  | markPageLocalCB (limiter : Nat)
  | pullAllPages
  | close (fromPullAllPages : Bool)
  deriving DecidableEq, Repr

/-- The loop variable: an index into the copied table, or an address and its bound. -/
inductive Cursor where
  | index (copy : List PageState) (id : Nat)
  | address (segmentPull endSegmentPull : Nat)
  deriving DecidableEq, Repr

inductive Control where
  | opening
  | copying (copy : List PageState)
  | scanning (cursor : Cursor)
  | limiting (cursor : Cursor)
  | adding (cursor : Cursor)
  | claiming (address size : Nat) (next : Option Cursor)
  | posting (address size : Nat) (next : Option Cursor)
  | working (address size : Nat) (ops : List Atomic) (next : Option Cursor)
  | checking
  | waiting
  | sending
  | returned
  | thrown
  deriving DecidableEq, Repr

/-- `claimed` records the pages for which the thread has won the compare-and-exchange. -/
structure Thread where
  call : Call
  control : Control
  claimed : List Nat
  deriving DecidableEq, Repr

/-- `reads` records the reads that have completed; `limiter` are the words that the
asynchronous pullers have allocated. -/
structure State where
  pages : Pages
  accessible : Nat → Bool
  threads : List Thread
  limiter : Nat → Int
  nextLimiter : Nat
  reads : List (Nat × Nat)

/-! ## One turn of a thread -/

inductive Verdict where
  | ended
  | skip
  | page
  | outOfRange
  deriving DecidableEq, Repr

namespace Cursor

/-- The test of the loop and of the page's state. The address loop passes its
address to the overload for page numbers. -/
def head (p : Pages) : Cursor → Verdict
  | index copy id =>
      match copy[id]? with
      | none => .ended
      | some PageState.local => .skip
      | some _ => .page
  | address segmentPull endSegmentPull =>
      if segmentPull < endSegmentPull then
        match p.at? (toInt32 segmentPull) with
        | none => .outOfRange
        | some PageState.local => .skip
        | some _ => .page
      else .ended

def next (p : Pages) : Cursor → Cursor
  | index copy id => index copy (id + 1)
  | address segmentPull endSegmentPull =>
      address (wrap64 (segmentPull + p.pageSize)) endSegmentPull

/-- `getPageAddress` and `getPageSize` of the page the loop is at. -/
def pageAddress (p : Pages) : Cursor → Nat
  | index _ id => p.getPageAddressOfId id
  | address segmentPull _ => p.getPageAddress segmentPull

def pageSize (p : Pages) : Cursor → Nat
  | index _ id => p.getPageSizeOfId id
  | address segmentPull _ => p.getPageSizeAt segmentPull

end Cursor

namespace Call

def limiter : Call → Option Nat
  | pullAllPagesWithoutCloseAsync l | pullPagesAsync l _ => some l
  | _ => none

def limit (cfg : Config) : Call → Int
  | pullPagesAsync _ maxAsyncLimit => maxAsyncLimit
  | _ => cfg.maxAsyncPending

def ops : Call → List Atomic
  | sigsegvAdvance => Paging.sigsegvAdvance
  | _ => pullPage

def afterLoop : Call → Control
  | pullAllPages => .checking
  | close _ => .sending
  | pullPagesAsync _ _ => .waiting
  | _ => .returned

end Call

def resume : Option Cursor → Control
  | none => .returned
  | some cursor => .scanning cursor

def callback (limiter address size : Nat) : Thread :=
  ⟨.markPageLocalCB limiter, .working address size (.await :: markPageLocalCB limiter) none, []⟩

inductive Effect where
  | none
  | claim (address : Nat)
  | protect (address size : Nat)
  | store (address : Nat)
  | count
  | add (limiter : Nat)
  | release (limiter : Nat)
  | spawn (t : Thread)
  | read (address size : Nat)
  deriving DecidableEq, Repr

/-- What the environment decides for a turn: an operation of the thread, with a
spurious failure of its compare-and-exchange; whether a call of `Pull` or
`PullAsync` finds its range registered; the completion of a read. -/
inductive Choice where
  | step (spurious : Bool)
  | read (ok : Bool)
  | complete
  deriving DecidableEq, Repr

namespace Thread

def goto (t : Thread) (control : Control) : Thread := { t with control := control }

def advance (cfg : Config) (s : State) (t : Thread) (spurious : Bool) :
    Option (Thread × Effect) :=
  let p := s.pages
  match t.control with
  | .opening =>
      some (t.goto (if cfg.prefetching && !cfg.faultTolerant then .copying [] else .sending),
        .protect p.startAddress p.memorySize)
  | .copying copy =>
      match p.pages[copy.length]? with
      | some state => some (t.goto (.copying (copy ++ [state])), .none)
      | none => some (t.goto (.scanning (.index copy 0)), .none)
  | .scanning cursor =>
      match cursor.head p with
      | .ended => some (t.goto t.call.afterLoop, .none)
      | .skip => some (t.goto (.scanning (cursor.next p)), .none)
      | .outOfRange => some (t.goto .thrown, .none)
      | .page =>
          if t.call.limiter.isSome then some (t.goto (.limiting cursor), .none)
          else some (t.goto (.claiming (cursor.pageAddress p) (cursor.pageSize p)
            (some (cursor.next p))), .none)
  | .limiting cursor =>
      t.call.limiter.map fun l =>
        if t.call.limit cfg < s.limiter l then (t, .none) else (t.goto (.adding cursor), .none)
  | .adding cursor =>
      t.call.limiter.map fun l =>
        (t.goto (.claiming (cursor.pageAddress p) (cursor.pageSize p) (some (cursor.next p))),
          .add l)
  | .claiming address size next =>
      match p.compareExchangeWeak (p.pageId address) .remote .inFlight spurious with
      | none => some (t.goto .thrown, .none)
      | some (false, _) => some (t.goto (resume next), .none)
      | some (true, _) =>
          some ({ t with
            control := if t.call.limiter.isSome then .posting address size next
              else .working address size t.call.ops next
            claimed := address :: t.claimed }, .claim address)
  | .posting _ _ _ => none
  | .working address size (op :: rest) next =>
      let t := t.goto (.working address size rest next)
      match op with
      | .post | .await => none
      | .protect => some (t, .protect address size)
      | .store => some (t, .store address)
      | .count => some (t, .count)
      | .release l => some (t, .release l)
  | .working _ _ [] next => some (t.goto (resume next), .none)
  | .checking =>
      if p.localPages < p.numPages then some (t.goto (.copying []), .none)
      else some (⟨.close true, .opening, t.claimed⟩, .none)
  | .waiting =>
      t.call.limiter.map fun l =>
        if 0 < s.limiter l then (t, .none) else (t.goto .returned, .none)
  | .sending => some (t.goto .returned, .none)
  | .returned | .thrown => none

def turn (cfg : Config) (s : State) (t : Thread) : Choice → Option (Thread × Effect)
  | .step spurious => t.advance cfg s spurious
  | .read ok =>
      match t.control with
      | .posting address size next =>
          t.call.limiter.map fun l =>
            if ok then (t.goto (resume next), .spawn (callback l address size))
            else (t.goto .thrown, .none)
      | .working address size (.post :: .await :: rest) next =>
          if ok then some (t.goto (.working address size (.await :: rest) next), .none)
          else if t.call = .sigsegvAdvance then some (t.goto .thrown, .none)
          else some (t.goto (.working address size rest next), .none)
      | _ => none
  | .complete =>
      match t.control with
      | .working address size (.await :: rest) next =>
          some (t.goto (.working address size rest next), .read address size)
      | _ => none

end Thread

/-! ## The machine -/

/-- A call by the application or by `on_transfer`. `content` is what `malloc` leaves
in the word of the limiter. The range pulls start at the segment's start, the only
address under which they find its record. -/
inductive Request where
  | pullAllPagesWithoutClose
  | pullAllPagesWithoutCloseAsync (content : Int)
  | pullPagesSync (size : Nat)
  | pullPagesAsync (size : Nat) (maxAsyncLimit content : Int)
  | pullAllPages
  | close
  deriving DecidableEq, Repr

inductive Action where
  | fault (a : Nat)
  | call (r : Request)
  | turn (i : Nat) (choice : Choice)
  deriving DecidableEq, Repr

namespace State

def setThread (s : State) (i : Nat) (t : Thread) : State :=
  { s with threads := s.threads.set i t }

def spawn (s : State) (t : Thread) : State := { s with threads := s.threads ++ [t] }

def malloc (s : State) (content : Int) : State :=
  { s with
    limiter := update s.limiter s.nextLimiter content
    nextLimiter := s.nextLimiter + 1 }

def apply (s : State) : Effect → Option State
  | .none => some s
  | .claim address =>
      some { s with pages := s.pages.store (s.pages.pageId address) .inFlight }
  | .protect address size =>
      (mprotect address size true s.accessible).map fun accessible =>
        { s with accessible := accessible }
  | .store address =>
      (s.pages.at? (s.pages.pageId address)).map fun _ =>
        { s with pages := s.pages.store (s.pages.pageId address) .local }
  | .count => some { s with pages := { s.pages with localPages := s.pages.localPages + 1 } }
  | .add l => some { s with limiter := update s.limiter l (s.limiter l + 1) }
  | .release l => some { s with limiter := update s.limiter l (s.limiter l - 1) }
  | .spawn t => some (s.spawn t)
  | .read address size => some { s with reads := (address, size) :: s.reads }

def range (s : State) (size : Nat) : Cursor :=
  .address s.pages.startAddress (wrap64 (s.pages.startAddress + size))

def request (s : State) : Request → State
  | .pullAllPagesWithoutClose => s.spawn ⟨.pullAllPagesWithoutClose, .copying [], []⟩
  | .pullAllPagesWithoutCloseAsync content =>
      (s.malloc content).spawn ⟨.pullAllPagesWithoutCloseAsync s.nextLimiter, .copying [], []⟩
  | .pullPagesSync size => s.spawn ⟨.pullPagesSync, .scanning (s.range size), []⟩
  | .pullPagesAsync size maxAsyncLimit content =>
      (s.malloc content).spawn
        ⟨.pullPagesAsync s.nextLimiter maxAsyncLimit, .scanning (s.range size), []⟩
  | .pullAllPages => s.spawn ⟨.pullAllPages, .copying [], []⟩
  | .close => s.spawn ⟨.close false, .opening, []⟩

/-- `getRDMAMemory` finds this segment for a faulting address inside it. -/
def Inside (s : State) (a : Nat) : Prop :=
  s.pages.startAddress ≤ a ∧ a < s.pages.startAddress + s.pages.memorySize

instance (s : State) (a : Nat) : Decidable (s.Inside a) := inferInstanceAs (Decidable (_ ∧ _))

/-- `sigsegv_advance` up to its compare-and-exchange. -/
def fault (s : State) (a : Nat) : State :=
  let address := s.pages.getPageAddress a
  s.spawn ⟨.sigsegvAdvance, .claiming address (s.pages.getPageSizeAt address) none, []⟩

end State

def step (cfg : Config) (s : State) : Action → Option State
  | .fault a => if s.Inside a then some (s.fault a) else none
  | .call r => some (s.request r)
  | .turn i choice => do
      let t ← s.threads[i]?
      let (t', effect) ← t.turn cfg s choice
      (s.setThread i t').apply effect

/-- `on_transfer` on a record just created by `accept`, before its prefetcher starts. -/
def received (start size : Nat) (accessible : Nat → Bool) (limiter : Nat → Int) : Option State := do
  let pages ← Pages.construct start size defaultPageSize
  let accessible ← mprotect start size false accessible
  return ⟨pages, accessible, [], limiter, 0, []⟩

/-- The prefetcher that `on_transfer` starts. -/
def prefetcher (asyncPrefetching : Bool) (content : Int) : Request :=
  if asyncPrefetching then .pullAllPagesWithoutCloseAsync content else .pullAllPagesWithoutClose

/-! ## What a turn can be -/

/-- The turns of a thread, one case for each branch of the code. -/
inductive Turned (cfg : Config) (s : State) (t : Thread) : Choice → Thread → Effect → Prop where
  | opened {spurious : Bool} {c : Control} (h : t.control = .opening)
      (hc : c = .copying [] ∨ c = .sending) :
      Turned cfg s t (.step spurious) (t.goto c)
        (.protect s.pages.startAddress s.pages.memorySize)
  | copied {spurious : Bool} {copy : List PageState} {state : PageState}
      (h : t.control = .copying copy) (hstate : s.pages.pages[copy.length]? = some state) :
      Turned cfg s t (.step spurious) (t.goto (.copying (copy ++ [state]))) .none
  | begun {spurious : Bool} {copy : List PageState} (h : t.control = .copying copy)
      (hend : s.pages.pages[copy.length]? = none) :
      Turned cfg s t (.step spurious) (t.goto (.scanning (.index copy 0))) .none
  | ended {spurious : Bool} {cursor : Cursor} (h : t.control = .scanning cursor)
      (hhead : cursor.head s.pages = .ended) :
      Turned cfg s t (.step spurious) (t.goto t.call.afterLoop) .none
  | skipped {spurious : Bool} {cursor : Cursor} (h : t.control = .scanning cursor)
      (hhead : cursor.head s.pages = .skip) :
      Turned cfg s t (.step spurious) (t.goto (.scanning (cursor.next s.pages))) .none
  | outOfRange {spurious : Bool} {cursor : Cursor} (h : t.control = .scanning cursor) :
      Turned cfg s t (.step spurious) (t.goto .thrown) .none
  | queued {spurious : Bool} {cursor : Cursor} {l : Nat} (h : t.control = .scanning cursor)
      (hhead : cursor.head s.pages = .page) (hl : t.call.limiter = some l) :
      Turned cfg s t (.step spurious) (t.goto (.limiting cursor)) .none
  | chosen {spurious : Bool} {cursor : Cursor} (h : t.control = .scanning cursor)
      (hhead : cursor.head s.pages = .page) (hl : t.call.limiter = none) :
      Turned cfg s t (.step spurious) (t.goto (.claiming (cursor.pageAddress s.pages)
        (cursor.pageSize s.pages) (some (cursor.next s.pages)))) .none
  | spun {spurious : Bool} {cursor : Cursor} {l : Nat} (h : t.control = .limiting cursor)
      (hl : t.call.limiter = some l) (hlimit : t.call.limit cfg < s.limiter l) :
      Turned cfg s t (.step spurious) t .none
  | admitted {spurious : Bool} {cursor : Cursor} {l : Nat} (h : t.control = .limiting cursor)
      (hl : t.call.limiter = some l) (hlimit : ¬ t.call.limit cfg < s.limiter l) :
      Turned cfg s t (.step spurious) (t.goto (.adding cursor)) .none
  | added {spurious : Bool} {cursor : Cursor} {l : Nat} (h : t.control = .adding cursor)
      (hl : t.call.limiter = some l) :
      Turned cfg s t (.step spurious) (t.goto (.claiming (cursor.pageAddress s.pages)
        (cursor.pageSize s.pages) (some (cursor.next s.pages)))) (.add l)
  | raised {spurious : Bool} {address size : Nat} {next : Option Cursor}
      (h : t.control = .claiming address size next)
      (hstate : s.pages.at? (s.pages.pageId address) = none) :
      Turned cfg s t (.step spurious) (t.goto .thrown) .none
  | lost {spurious : Bool} {address size : Nat} {next : Option Cursor} {state : PageState}
      (h : t.control = .claiming address size next)
      (hlost : s.pages.at? (s.pages.pageId address) ≠ some .remote ∨ spurious = true)
      (hstate : s.pages.at? (s.pages.pageId address) = some state) :
      Turned cfg s t (.step spurious) (t.goto (resume next)) .none
  | wonAsync {spurious : Bool} {address size l : Nat} {next : Option Cursor}
      (h : t.control = .claiming address size next)
      (hremote : s.pages.at? (s.pages.pageId address) = some .remote)
      (hl : t.call.limiter = some l) :
      Turned cfg s t (.step spurious)
        ⟨t.call, .posting address size next, address :: t.claimed⟩ (.claim address)
  | wonSync {spurious : Bool} {address size : Nat} {next : Option Cursor}
      (h : t.control = .claiming address size next)
      (hremote : s.pages.at? (s.pages.pageId address) = some .remote)
      (hl : t.call.limiter = none) :
      Turned cfg s t (.step spurious)
        ⟨t.call, .working address size t.call.ops next, address :: t.claimed⟩ (.claim address)
  | posted {address size l : Nat} {next : Option Cursor}
      (h : t.control = .posting address size next) (hl : t.call.limiter = some l) :
      Turned cfg s t (.read true) (t.goto (resume next)) (.spawn (callback l address size))
  | refusedAsync {address size : Nat} {next : Option Cursor}
      (h : t.control = .posting address size next) :
      Turned cfg s t (.read false) (t.goto .thrown) .none
  | sent {address size : Nat} {rest : List Atomic} {next : Option Cursor}
      (h : t.control = .working address size (.post :: .await :: rest) next) :
      Turned cfg s t (.read true) (t.goto (.working address size (.await :: rest) next)) .none
  | refused {address size : Nat} {rest : List Atomic} {next : Option Cursor}
      (h : t.control = .working address size (.post :: .await :: rest) next)
      (hcall : t.call = .sigsegvAdvance) :
      Turned cfg s t (.read false) (t.goto .thrown) .none
  | ignored {address size : Nat} {rest : List Atomic} {next : Option Cursor}
      (h : t.control = .working address size (.post :: .await :: rest) next)
      (hcall : t.call ≠ .sigsegvAdvance) :
      Turned cfg s t (.read false) (t.goto (.working address size rest next)) .none
  | completed {address size : Nat} {rest : List Atomic} {next : Option Cursor}
      (h : t.control = .working address size (.await :: rest) next) :
      Turned cfg s t .complete (t.goto (.working address size rest next)) (.read address size)
  | unprotected {spurious : Bool} {address size : Nat} {rest : List Atomic}
      {next : Option Cursor} (h : t.control = .working address size (.protect :: rest) next) :
      Turned cfg s t (.step spurious) (t.goto (.working address size rest next))
        (.protect address size)
  | stored {spurious : Bool} {address size : Nat} {rest : List Atomic} {next : Option Cursor}
      (h : t.control = .working address size (.store :: rest) next) :
      Turned cfg s t (.step spurious) (t.goto (.working address size rest next)) (.store address)
  | counted {spurious : Bool} {address size : Nat} {rest : List Atomic} {next : Option Cursor}
      (h : t.control = .working address size (.count :: rest) next) :
      Turned cfg s t (.step spurious) (t.goto (.working address size rest next)) .count
  | released {spurious : Bool} {address size l : Nat} {rest : List Atomic}
      {next : Option Cursor} (h : t.control = .working address size (.release l :: rest) next) :
      Turned cfg s t (.step spurious) (t.goto (.working address size rest next)) (.release l)
  | finished {spurious : Bool} {address size : Nat} {next : Option Cursor}
      (h : t.control = .working address size [] next) :
      Turned cfg s t (.step spurious) (t.goto (resume next)) .none
  | rechecked {spurious : Bool} (h : t.control = .checking) :
      Turned cfg s t (.step spurious) (t.goto (.copying [])) .none
  | checked {spurious : Bool} (h : t.control = .checking)
      (hle : s.pages.numPages ≤ s.pages.localPages) :
      Turned cfg s t (.step spurious) ⟨.close true, .opening, t.claimed⟩ .none
  | waited {spurious : Bool} {l : Nat} (h : t.control = .waiting)
      (hl : t.call.limiter = some l) (hpending : 0 < s.limiter l) :
      Turned cfg s t (.step spurious) t .none
  | left {spurious : Bool} {l : Nat} (h : t.control = .waiting) (hl : t.call.limiter = some l)
      (hdone : s.limiter l ≤ 0) : Turned cfg s t (.step spurious) (t.goto .returned) .none
  | done {spurious : Bool} (h : t.control = .sending) :
      Turned cfg s t (.step spurious) (t.goto .returned) .none

section Turned

variable {cfg : Config} {s : State} {t t' : Thread} {effect : Effect}

theorem claim_turned {address size : Nat} {next : Option Cursor} {spurious : Bool}
    (hcontrol : t.control = .claiming address size next)
    (h : t.advance cfg s spurious = some (t', effect)) :
    Turned cfg s t (.step spurious) t' effect := by
  simp only [Thread.advance, hcontrol, Pages.compareExchangeWeak] at h
  cases hstate : s.pages.at? (s.pages.pageId address) with
  | none =>
      simp only [hstate, Option.map_none] at h
      cases h
      exact .raised hcontrol hstate
  | some current =>
      simp only [hstate, Option.map_some] at h
      by_cases hwon : current = .remote ∧ spurious = false
      · rw [if_pos hwon] at h
        rw [hwon.1] at hstate
        cases hl : t.call.limiter with
        | none =>
            simp only [hl, Option.isSome_none, Bool.false_eq_true, if_false] at h
            cases h
            exact .wonSync hcontrol hstate hl
        | some l =>
            simp only [hl, Option.isSome_some, if_true] at h
            cases h
            exact .wonAsync hcontrol hstate hl
      · rw [if_neg hwon] at h
        cases h
        refine .lost hcontrol ?_ hstate
        by_cases hspurious : spurious = true
        · exact .inr hspurious
        · refine .inl fun hremote => hwon ⟨?_, by simpa using hspurious⟩
          rw [hstate] at hremote
          exact Option.some.inj hremote

theorem advance_turned {spurious : Bool} (h : t.advance cfg s spurious = some (t', effect)) :
    Turned cfg s t (.step spurious) t' effect := by
  cases hcontrol : t.control with
  | claiming => exact claim_turned hcontrol h
  | posting | returned | thrown =>
      simp only [Thread.advance, hcontrol] at h
      cases h
  | opening =>
      simp only [Thread.advance, hcontrol] at h
      cases h
      refine .opened hcontrol ?_
      split
      · exact .inl rfl
      · exact .inr rfl
  | copying copy =>
      simp only [Thread.advance, hcontrol] at h
      split at h <;> cases h
      next hstate => exact .copied hcontrol hstate
      next hend => exact .begun hcontrol hend
  | scanning cursor =>
      simp only [Thread.advance, hcontrol] at h
      split at h
      next hhead =>
        cases h
        exact .ended hcontrol hhead
      next hhead =>
        cases h
        exact .skipped hcontrol hhead
      next =>
        cases h
        exact .outOfRange hcontrol
      next hhead =>
        cases hl : t.call.limiter with
        | none =>
            simp only [hl, Option.isSome_none, Bool.false_eq_true, if_false] at h
            cases h
            exact .chosen hcontrol hhead hl
        | some l =>
            simp only [hl, Option.isSome_some, if_true] at h
            cases h
            exact .queued hcontrol hhead hl
  | limiting =>
      simp only [Thread.advance, hcontrol] at h
      obtain ⟨l, hl, hturn⟩ := Option.map_eq_some_iff.mp h
      split at hturn <;> cases hturn
      next hlimit => exact .spun hcontrol hl hlimit
      next hlimit => exact .admitted hcontrol hl hlimit
  | adding =>
      simp only [Thread.advance, hcontrol] at h
      obtain ⟨l, hl, hturn⟩ := Option.map_eq_some_iff.mp h
      cases hturn
      exact .added hcontrol hl
  | working address size ops next =>
      cases ops with
      | nil =>
          simp only [Thread.advance, hcontrol] at h
          cases h
          exact .finished hcontrol
      | cons op rest =>
          simp only [Thread.advance, hcontrol] at h
          cases op <;> cases h
          · exact .unprotected hcontrol
          · exact .stored hcontrol
          · exact .counted hcontrol
          · exact .released hcontrol
  | checking =>
      simp only [Thread.advance, hcontrol] at h
      split at h <;> cases h
      next => exact .rechecked hcontrol
      next hle => exact .checked hcontrol (Int.not_lt.mp hle)
  | waiting =>
      simp only [Thread.advance, hcontrol] at h
      obtain ⟨l, hl, hturn⟩ := Option.map_eq_some_iff.mp h
      split at hturn <;> cases hturn
      next hpending => exact .waited hcontrol hl hpending
      next hdone => exact .left hcontrol hl (Int.not_lt.mp hdone)
  | sending =>
      simp only [Thread.advance, hcontrol] at h
      cases h
      exact .done hcontrol

theorem turned_of_turn {choice : Choice} (h : t.turn cfg s choice = some (t', effect)) :
    Turned cfg s t choice t' effect := by
  cases choice with
  | step spurious => exact advance_turned h
  | read ok =>
      simp only [Thread.turn] at h
      split at h
      next address size next hcontrol =>
        obtain ⟨l, hl, hturn⟩ := Option.map_eq_some_iff.mp h
        cases ok with
        | true =>
            cases hturn
            exact .posted hcontrol hl
        | false =>
            cases hturn
            exact .refusedAsync hcontrol
      next address size rest next hcontrol =>
        cases ok with
        | true =>
            cases h
            exact .sent hcontrol
        | false =>
            simp only [Bool.false_eq_true, if_false] at h
            split at h <;> cases h
            next hcall => exact .refused hcontrol hcall
            next hcall => exact .ignored hcontrol hcall
      next => cases h
  | complete =>
      simp only [Thread.turn] at h
      split at h
      next hcontrol =>
        cases h
        exact .completed hcontrol
      next => cases h

theorem turn_cases {s' : State} {i : Nat} {choice : Choice}
    (h : step cfg s (.turn i choice) = some s') :
    ∃ t t' effect, s.threads[i]? = some t ∧ Turned cfg s t choice t' effect ∧
      (s.setThread i t').apply effect = some s' := by
  simp only [step, Option.bind_eq_bind, Option.bind_eq_some_iff, Prod.exists] at h
  obtain ⟨t, ht, t', effect, hturn, happly⟩ := h
  exact ⟨t, t', effect, ht, turned_of_turn hturn, happly⟩

end Turned

end RdmaMigration.Paging.Threads
