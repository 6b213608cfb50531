import RdmaMigration.Lib.Simulation
import RdmaMigration.Manager.Protocol
import RdmaMigration.Paging.Safety

/-! # Demand paging is not observable

The build without PAGING copies the whole segment in `on_transfer`, after which the
application reads and writes plain memory. With PAGING the bytes arrive page by
page while the application is already running. To the application the two are the
same: whatever the threads, the NIC and the fault handlers do in between, its loads
and stores form a run of the plain memory that the other build would have.
-/

namespace RdmaMigration.Paging

open Lib Function

/-! ## Plain memory -/

/-- A load with the value it gave, or a store. -/
inductive Access where
  | load (a : Nat) (value : UInt8)
  | store (a : Nat) (value : UInt8)
  deriving DecidableEq, Repr

/-- The application on memory that is simply there. -/
def plainStep (segment : Nat × Nat) (memory : Nat → UInt8) : Access → Option (Nat → UInt8)
  | .load a value => if Covers segment a ∧ memory a = value then some memory else none
  | .store a value => if Covers segment a then some (update memory a value) else none

/-- The bytes after the whole segment has been read from the source. -/
def copied (segment : Nat × Nat) (source before : Nat → UInt8) (a : Nat) : UInt8 :=
  if Covers segment a then source a else before a

/-- This is what the `Pull` of `on_transfer` leaves without PAGING. -/
theorem pull_copied {server server' remote : Manager.Server} {peer : Int} {start size : Nat}
    (h : server.pull remote peer start size = .ok (server', 0)) :
    server'.bytes = copied (start, size) remote.bytes server.bytes := by
  rcases Manager.Server.pull_cases h with ⟨-, -, hfailed⟩ | ⟨-, -, rfl⟩
  · cases hfailed
  · rfl

/-! ## The application over the pages -/

/-- An action of the paging machine, where `write` is a store of the application, or a
load of the application, which faults unless the byte is accessible. -/
inductive Observed where
  | machine (action : Action)
  | load (a : Nat) (value : UInt8)
  deriving DecidableEq, Repr

def observedStep (env : Environment) (s : State) : Observed → Option State
  | .machine action => step env s action
  | .load a value =>
      if s.Inside a ∧ s.accessible a = true ∧ s.memory a = value then some s else none

def visible : Observed → Option Access
  | .machine (.write a value) => some (.store a value)
  | .machine _ => none
  | .load a value => some (.load a value)

def believed (segment : Nat × Nat) (source before : Nat → UInt8) (s : State) (a : Nat) : UInt8 :=
  if Covers segment a then (if s.written a = true then s.memory a else source a) else before a

/-! ## Bytes that have arrived -/

/-- The bytes of every completed read are the source's unless they were stored over. -/
def Arrived (env : Environment) (s : State) : Prop :=
  ∀ r ∈ s.completed, ∀ a, Covers r a → s.written a = false → s.memory a = env.source a

theorem step_arrived {env : Environment} {s s' : State} {action : Action} (hi : Arrived env s)
    (h : step env s action = some s') : Arrived env s' := by
  intro r hr a ha hw
  cases step_stepped h with
  | fault | start => exact hi r hr a ha hw
  | control hturn => cases hturn <;> exact hi r hr a ha hw
  | op _ hworked => cases hworked <;> exact hi r hr a ha hw
  | @land t b =>
      by_cases hab : a = b
      · simp [hab]
      · simp only [update_of_ne hab]
        exact hi r hr a ha hw
  | @complete t address length =>
      dsimp only
      split
      · rfl
      next hc =>
        rcases List.mem_cons.mp hr with rfl | hold
        · exact absurd ha hc
        · exact hi r hold a ha hw
  | @write b value =>
      have hab : a ≠ b := by
        rintro rfl
        simp at hw
      simp only [update_of_ne hab] at hw ⊢
      exact hi r hr a ha hw

/-! ## The simulation -/

/-- The state of a run that the correspondence holds in. -/
structure Sound (start size : Nat) (env : Environment) (s : State) : Prop where
  inv : Inv start size s
  arrived : Arrived env s

section Simulation

variable {start size : Nat} {env : Environment} {s s' : State}

theorem Sound.step (hal : Aligned start size) {action : Action} (hs : Sound start size env s)
    (h : step env s action = some s') : Sound start size env s' :=
  ⟨step_inv hal hs.inv h, step_arrived hs.arrived h⟩

theorem Sound.covers (hs : Sound start size env s) {a : Nat} (ha : s.Inside a) :
    Covers (start, size) a := by
  obtain ⟨hlo, hhi⟩ := ha
  rw [hs.inv.geometry.startAddress] at hlo hhi
  rw [hs.inv.geometry.memorySize] at hhi
  exact ⟨hlo, hhi⟩

theorem Sound.memory_eq (hs : Sound start size env s) (before : Nat → UInt8) {a : Nat}
    (ha : Covers (start, size) a) (hopen : s.accessible a = true) :
    s.memory a = believed (start, size) env.source before s a := by
  rw [believed, if_pos ha]
  cases hw : s.written a with
  | true => rfl
  | false =>
      obtain ⟨r, hr, hra⟩ := hs.inv.accessible a ha.1 ha.2 hopen
      exact hs.arrived r hr a hra hw

/-- The belief changes with the application's stores only: the NIC writes into pages no
byte of which was stored to. -/
theorem Sound.believed_hidden (hs : Sound start size env s) {action : Action}
    (h : Paging.step env s action = some s') (hquiet : visible (.machine action) = none)
    (before : Nat → UInt8) :
    believed (start, size) env.source before s' = believed (start, size) env.source before s := by
  have hwritten : s'.written = s.written := by
    cases step_stepped h with
    | control hturn => cases hturn <;> rfl
    | op _ hworked => cases hworked <;> rfl
    | write => cases hquiet
    | fault | start | land | complete => rfl
  funext a
  rw [believed, believed, hwritten]
  by_cases hw : s.written a = true
  · rw [if_pos hw, if_pos hw]
    refine congrArg (if Covers (start, size) a then · else before a) ?_
    exact step_keeps_written hs.inv h (by rintro b v rfl; cases hquiet) hw
  · rw [if_neg hw, if_neg hw]

theorem Sound.believed_store (hs : Sound start size env s) {a : Nat} {value : UInt8}
    (h : Paging.step env s (.write a value) = some s') (before : Nat → UInt8) :
    Covers (start, size) a ∧ believed (start, size) env.source before s' =
      update (believed (start, size) env.source before s) a value := by
  cases step_stepped h with
  | write ha _ =>
      have hcovers := hs.covers ha
      refine ⟨hcovers, ?_⟩
      funext b
      by_cases hb : b = a
      · subst hb
        simp [believed, hcovers]
      · simp [believed, hb]

end Simulation

theorem plain_simulation {start size : Nat} (hal : Aligned start size) (env : Environment)
    (before : Nat → UInt8) :
    Simulation (observedStep env) (plainStep (start, size)) (Sound start size env)
      (believed (start, size) env.source before) (fun _ => visible) where
  keeps := by
    intro s t a hs h
    cases a with
    | machine action => exact hs.step hal h
    | load a value =>
        simp only [observedStep, Option.ite_none_right_eq_some, Option.some.injEq] at h
        rw [← h.2]
        exact hs
  hidden := by
    intro s t a hs h hv
    cases a with
    | machine action => exact hs.believed_hidden h hv before
    | load a value => cases hv
  shown := by
    intro s t a b hs h hv
    cases a with
    | machine action =>
        cases action with
        | write a value =>
            cases hv
            obtain ⟨hcovers, hbelieved⟩ := hs.believed_store h before
            rw [plainStep, if_pos hcovers, hbelieved]
        | fault | start | control | op | land | complete => cases hv
    | load a value =>
        cases hv
        simp only [observedStep, Option.ite_none_right_eq_some, Option.some.injEq] at h
        obtain ⟨⟨hinside, hopen, hvalue⟩, rfl⟩ := h
        have hcovers := hs.covers hinside
        rw [plainStep, if_pos ⟨hcovers, by rw [← hs.memory_eq before hcovers hopen, hvalue]⟩]

theorem initial_sound {start size : Nat} (hal : Aligned start size) (env : Environment)
    {memory : Nat → UInt8} {accessible : Nat → Bool} {limiter : Nat → Int} {s : State}
    (h : onTransfer start size memory accessible limiter = some s) :
    Sound start size env s ∧
      believed (start, size) env.source memory s = copied (start, size) env.source memory := by
  have hinv := initial_inv hal h
  simp only [onTransfer, Option.bind_eq_bind, Option.bind_eq_some_iff, Option.pure_def,
    Option.some.injEq] at h
  obtain ⟨pages, -, acc, -, rfl⟩ := h
  refine ⟨⟨hinv, ?_⟩, ?_⟩
  · intro r hr
    exact absurd hr (List.not_mem_nil)
  · funext a
    simp [believed, copied]

/-- Whatever the application does over the pages, with any threads pulling them in any
interleaving, it could have done over the bytes that `on_transfer` of the build without
PAGING leaves; and the accessible bytes agree with those at every point. -/
theorem paging_transparent {start size : Nat} (hal : Aligned start size)
    {server server' remote : Manager.Server} {peer : Int}
    (hplain : server.pull remote peer start size = .ok (server', 0)) {maxAsyncPending : Int}
    {accessible : Nat → Bool} {limiter : Nat → Int} {s₀ s : State}
    (h₀ : onTransfer start size server.bytes accessible limiter = some s₀) {actions : List Observed}
    (hrun : run (observedStep ⟨remote.bytes, maxAsyncPending⟩) s₀ actions = some s) :
    ∃ bytes, run (plainStep (start, size)) server'.bytes (actions.filterMap visible) =
        some bytes ∧
      ∀ a, Covers (start, size) a → s.accessible a = true → s.memory a = bytes a := by
  obtain ⟨hsound, hbelieved⟩ :=
    initial_sound hal (⟨remote.bytes, maxAsyncPending⟩ : Environment) h₀
  have hsim := plain_simulation hal ⟨remote.bytes, maxAsyncPending⟩ server.bytes
  refine ⟨believed (start, size) remote.bytes server.bytes s, ?_, ?_⟩
  · rw [pull_copied hplain, ← hbelieved, ← observed_filterMap hrun]
    exact hsim.run_observed hsound hrun
  · intro a ha hopen
    exact (hsim.run_keeps hsound hrun).memory_eq server.bytes ha hopen

/-- A server to which the peer has registered two pages at `0x1000`. -/
def twoPages (serverId : Int) (bytes : Nat → UInt8) : Manager.Server :=
  { Manager.Server.construct 2 serverId with
    bytes := bytes
    connections := fun _ => ⟨AList.singleton 4096 ⟨8192, 1⟩, AList.singleton 4096 ⟨4096, 8192, 1⟩,
      []⟩ }

/-- The application stores to the second page while the first one is being fetched, and
then loads from both. -/
theorem paging_transparent_two_pages :
    ∃ (server' : Manager.Server) (bytes : Nat → UInt8) (s : State),
    (twoPages 1 fun _ => 0).pull (twoPages 0 fun _ => 7) 0 4096 8192 = .ok (server', 0) ∧
    run (plainStep (4096, 8192)) server'.bytes
      [.store 8192 9, .load 8192 9, .load 4096 7] = some bytes ∧
    s.accessible 4096 = true ∧ s.memory 4096 = bytes 4096 := by
  let actions : List Observed := [.machine (.fault 0 8200), .machine (.control 0 false 0),
    .machine (.op 0), .machine (.complete 0), .machine (.op 0), .machine (.op 0),
    .machine (.op 0), .machine (.fault 1 5000), .machine (.control 1 false 0), .machine (.op 1),
    .machine (.write 8192 9), .machine (.land 1 4100), .machine (.complete 1), .machine (.op 1),
    .machine (.op 1), .machine (.op 1), .load 8192 9, .load 4096 7]
  have hplain : ∃ server', (twoPages 1 fun _ => 0).pull (twoPages 0 fun _ => 7) 0 4096 8192 =
      .ok (server', 0) := by
    refine ⟨{ twoPages 1 (fun _ => 0) with
      bytes := copied (4096, 8192) (fun _ => 7) (fun _ => 0) }, ?_⟩
    exact Manager.Server.pull_of_readable ⟨_, _, rfl, by decide +kernel⟩
  have hacts : ((onTransfer 4096 8192 (fun _ => 0) (fun _ => true) (fun _ => 0)).bind fun s₀ =>
      run (observedStep ⟨fun _ => 7, 1⟩) s₀ actions).map (fun s => s.accessible 4096) =
        some true := by
    decide +kernel
  obtain ⟨server', hpull⟩ := hplain
  obtain ⟨s, hs, hopen⟩ := Option.map_eq_some_iff.mp hacts
  obtain ⟨s₀, h₀, hrun⟩ := Option.bind_eq_some_iff.mp hs
  have hal : Aligned 4096 8192 := ⟨by decide, by decide, by decide⟩
  obtain ⟨bytes, hbytes, hagree⟩ := paging_transparent hal hpull h₀ hrun
  exact ⟨server', bytes, s, hpull, hbytes, hopen, hagree 4096 (by decide) hopen⟩

end RdmaMigration.Paging
