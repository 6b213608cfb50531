import Mathlib.Logic.Function.Basic
import RdmaMigration.Lib.Ranges
import RdmaMigration.Lib.Run
import RdmaMigration.Paging.Pages

/-! # Threads that pull the pages of one segment

A segment of the PAGING build after `on_transfer`: its page table, the protection
of its bytes, and any number of threads inside `sigsegv_advance`,
`PullAllPagesWithoutClose` and `PullAllPagesWithoutCloseAsync`. Every atomic
operation, every `mprotect`, every posted read and every read completion is one
step. What a thread does once it has won the compare-and-exchange on a page is a
`Job`, a straight list of such operations; the callback of an asynchronous read
is a job too, waiting in a slot of its own until the read completes.
-/

namespace RdmaMigration.Paging

open Lib Function

/-- The operations that follow a won claim. `post` hands the read to the NIC,
`await` is passed by its completion, `release` is the `fetch_sub` on a rate limiter. -/
inductive Atomic where
  | post
  | await
  | protect
  | store
  | count
  | release (limiter : Nat)
  deriving DecidableEq, Repr

/-- The rest of `sigsegv_advance` after its compare-and-exchange. -/
def sigsegvAdvance : List Atomic := [.post, .await, .store, .count, .protect]

def markPageLocal : List Atomic := [.protect, .store, .count]

/-- `MarkPageLocalCB` with the rate limiter its data block names. -/
def markPageLocalCB (limiter : Nat) : List Atomic :=
  [.protect, .release limiter, .store, .count]

/-- The rest of the loop body of `PullAllPagesWithoutClose`. -/
def pullPage : List Atomic := .post :: .await :: markPageLocal

/-- The rest of the loop body of `PullAllPagesWithoutCloseAsync`, with its callback. -/
def pullPageAsync (limiter : Nat) : List Atomic := .post :: .await :: markPageLocalCB limiter

structure Job where
  address : Nat
  size : Nat
  ops : List Atomic
  deriving DecidableEq, Repr

/-- Where a thread is when it is not executing its job. `copying` is the copy of
`memory->pages.pages`, one atomic load per page; `copy` is the part already read. -/
inductive Control where
  | idle
  | faulted (address size : Nat)
  | copying (async : Bool) (copy : List PageState)
  | scanning (async : Bool) (copy : List PageState) (id : Nat)
  | limiting (copy : List PageState) (id : Nat)
  | adding (copy : List PageState) (id : Nat)
  | claiming (async : Bool) (copy : List PageState) (id : Nat)
  | posting (copy : List PageState) (id : Nat)
  | working (next : Option (List PageState × Nat))
  deriving DecidableEq, Repr

/-- `posted` and `completed` record the reads of the run as address and length;
`written` marks the bytes the application has written since the transfer. -/
structure State where
  pages : Pages
  accessible : Nat → Bool
  memory : Nat → UInt8
  control : Nat → Control
  job : Nat → Option Job
  limiter : Nat → Int
  posted : List (Nat × Nat)
  completed : List (Nat × Nat)
  written : Nat → Bool

/-- The bytes at the source, which the caller leaves alone after `Transfer`, and
the bound on pending asynchronous reads. -/
structure Environment where
  source : Nat → UInt8
  maxAsyncPending : Int

/-- `mprotect` acts on whole pages of 4096 bytes and refuses an unaligned start,
after which every caller here exits. -/
def mprotect (address size : Nat) (value : Bool) (accessible : Nat → Bool) :
    Option (Nat → Bool) :=
  if address % 4096 = 0 then
    some fun a => if Covers (address, 4096 * ((size + 4095) / 4096)) a then value
      else accessible a
  else none

theorem update_eq_some {f : Nat → Option Job} {t u : Nat} {x : Option Job} {j : Job}
    (h : update f t x u = some j) : (u = t ∧ x = some j) ∨ (u ≠ t ∧ f u = some j) := by
  by_cases hu : u = t
  · subst hu
    exact .inl ⟨rfl, by simpa using h⟩
  · exact .inr ⟨hu, by simpa [hu] using h⟩

namespace State

def setControl (s : State) (t : Nat) (c : Control) : State :=
  { s with control := update s.control t c }

def setJob (s : State) (t : Nat) (j : Option Job) : State :=
  { s with job := update s.job t j }

/-- No thread runs in the slot and no callback waits in it. -/
def Free (s : State) (t : Nat) : Prop := s.control t = .idle ∧ s.job t = none

instance (s : State) (t : Nat) : Decidable (s.Free t) := inferInstanceAs (Decidable (_ ∧ _))

/-- `getRDMAMemory` finds this segment for a faulting address inside it. -/
def Inside (s : State) (a : Nat) : Prop :=
  s.pages.startAddress ≤ a ∧ a < s.pages.startAddress + s.pages.memorySize

instance (s : State) (a : Nat) : Decidable (s.Inside a) := inferInstanceAs (Decidable (_ ∧ _))

end State

def takePage (s : State) (t address size : Nat) (ops : List Atomic) (won : Control) : State :=
  { s with
    pages := s.pages.store (s.pages.pageId address) .inFlight
    job := update s.job t (some ⟨address, size, ops⟩)
    control := update s.control t won }

/-- `setPageStateCAS(address, Remote, InFlight)`: the winner goes on to `won` with
the job `ops` on the page, the loser to `lost`. -/
def claim (s : State) (t address size : Nat) (ops : List Atomic) (won lost : Control)
    (spurious : Bool) : Option State :=
  (s.pages.compareExchangeWeak (s.pages.pageId address) .remote .inFlight spurious).map
    fun result =>
      if result.1 then takePage s t address size ops won else s.setControl t lost

theorem claim_cases {s s' : State} {t address size : Nat} {ops : List Atomic}
    {won lost : Control} {spurious : Bool}
    (h : claim s t address size ops won lost spurious = some s') :
    (s.pages.at? (s.pages.pageId address) = some .remote ∧
      s' = takePage s t address size ops won) ∨ s' = s.setControl t lost := by
  obtain ⟨⟨ok, pages⟩, hcas, hs'⟩ := Option.map_eq_some_iff.mp h
  rcases Pages.compareExchangeWeak_spec hcas with ⟨hok, hremote, -⟩ | ⟨hok, -⟩
  · subst hok
    exact .inl ⟨hremote, by simpa using hs'.symm⟩
  · subst hok
    exact .inr (by simpa using hs'.symm)

/-- One step of a thread outside its job. `slot` is the slot in which the callback
of a read posted by `PullAsync` waits. -/
def controlStep (env : Environment) (s : State) (t : Nat) (spurious : Bool) (slot : Nat) :
    Option State :=
  match s.control t with
  | .idle => none
  | .working _ => none
  | .faulted address size =>
      claim s t address size sigsegvAdvance (.working none) .idle spurious
  | .copying async copy =>
      match s.pages.pages[copy.length]? with
      | some state => some (s.setControl t (.copying async (copy ++ [state])))
      | none => some (s.setControl t (.scanning async copy 0))
  | .scanning async copy id =>
      match copy[id]? with
      | none => some (s.setControl t .idle)
      | some PageState.local => some (s.setControl t (.scanning async copy (id + 1)))
      | some _ =>
          some (s.setControl t (if async then .limiting copy id else .claiming false copy id))
  | .limiting copy id =>
      if env.maxAsyncPending < s.limiter t then some s
      else some (s.setControl t (.adding copy id))
  | .adding copy id =>
      some { s.setControl t (.claiming true copy id) with
        limiter := update s.limiter t (s.limiter t + 1) }
  | .claiming false copy id =>
      claim s t (s.pages.getPageAddressOfId id) (s.pages.getPageSizeOfId id) pullPage
        (.working (some (copy, id + 1))) (.scanning false copy (id + 1)) spurious
  | .claiming true copy id =>
      claim s t (s.pages.getPageAddressOfId id) (s.pages.getPageSizeOfId id) (pullPageAsync t)
        (.posting copy id) (.scanning true copy (id + 1)) spurious
  | .posting copy id =>
      match s.job t with
      | some ⟨address, size, .post :: rest⟩ =>
          if s.Free slot then
            some { ((s.setJob t none).setJob slot (some ⟨address, size, rest⟩)).setControl t
                (.scanning true copy (id + 1)) with
              posted := (address, size) :: s.posted }
          else none
      | _ => none

def resume : Control → Control
  | .working (some (copy, id)) => .scanning false copy id
  | .working none => .idle
  | c => c

def opStep (s : State) (t : Nat) : Option State :=
  match s.control t, s.job t with
  | .posting _ _, _ => none
  | _, none => none
  | c, some ⟨_, _, []⟩ => some ((s.setJob t none).setControl t (resume c))
  | _, some ⟨address, size, op :: rest⟩ =>
      let next := s.setJob t (some ⟨address, size, rest⟩)
      match op with
      | .post => some { next with posted := (address, size) :: s.posted }
      | .await => none
      | .protect => (mprotect address size true s.accessible).map
          fun accessible => { next with accessible := accessible }
      | .store => (s.pages.at? (s.pages.pageId address)).map
          fun _ => { next with pages := s.pages.store (s.pages.pageId address) .local }
      | .count => some { next with
          pages := { s.pages with localPages := s.pages.localPages + 1 } }
      | .release l => some { next with
          limiter := update s.limiter l (s.limiter l - 1) }

/-- The NIC may write any byte of a posted read before the read completes. -/
def landStep (env : Environment) (s : State) (t a : Nat) : Option State :=
  match s.job t with
  | some ⟨address, size, .await :: _⟩ =>
      if Covers (address, size) a then
        some { s with memory := update s.memory a (env.source a) }
      else none
  | _ => none

def completeStep (env : Environment) (s : State) (t : Nat) : Option State :=
  match s.job t with
  | some ⟨address, size, .await :: rest⟩ =>
      some { s.setJob t (some ⟨address, size, rest⟩) with
        memory := fun a => if Covers (address, size) a then env.source a else s.memory a
        completed := (address, size) :: s.completed }
  | _ => none

inductive Action where
  | fault (t a : Nat)
  | start (t : Nat) (async : Bool)
  | control (t : Nat) (spurious : Bool) (slot : Nat)
  | op (t : Nat)
  | land (t a : Nat)
  | complete (t : Nat)
  | write (a : Nat) (value : UInt8)
  deriving DecidableEq, Repr

def step (env : Environment) (s : State) : Action → Option State
  | .fault t a =>
      if s.Free t ∧ s.Inside a then
        let address := s.pages.getPageAddress a
        some (s.setControl t (.faulted address (s.pages.getPageSizeAt address)))
      else none
  | .start t async => if s.Free t then some (s.setControl t (.copying async [])) else none
  | .control t spurious slot => controlStep env s t spurious slot
  | .op t => opStep s t
  | .land t a => landStep env s t a
  | .complete t => completeStep env s t
  | .write a value =>
      if s.Inside a ∧ s.accessible a = true then
        some { s with
          memory := update s.memory a value
          written := update s.written a true }
      else none

/-- `on_transfer` of the PAGING build on a record just created by `accept`: the
whole segment is made inaccessible before any thread can pull from it. -/
def onTransfer (start size : Nat) (memory : Nat → UInt8) (accessible : Nat → Bool)
    (limiter : Nat → Int) : Option State := do
  let pages ← Pages.construct start size defaultPageSize
  let accessible ← mprotect start size false accessible
  return {
    pages := pages
    accessible := accessible
    memory := memory
    control := fun _ => .idle
    job := fun _ => none
    limiter := limiter
    posted := []
    completed := []
    written := fun _ => false }

end RdmaMigration.Paging
