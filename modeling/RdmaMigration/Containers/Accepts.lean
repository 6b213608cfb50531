import RdmaMigration.Containers.Base
import RdmaMigration.Lib.Run
import RdmaMigration.Manager.Desk

/-! # Containers that share the queue of acceptances

Any number of containers of one server call `Prepare`, `PollForAccept` and
`Transfer` in any order, while the poller enters the acceptances that arrive.
`PollForAccept` looks at the head of the one queue and returns true whatever it
finds there. As long as a container polls only when the head is its own segment or
the queue is empty, nobody takes or uses the acceptance of another.
-/

namespace RdmaMigration.Containers.Accepts

open Lib Function Network Manager

variable {κ : Type}

/-- `arrived` lists the segments whose `ACCEPT` has arrived, `claimed` the own
segments of the containers whose `PollForAccept` returned true. -/
structure State (κ : Type) where
  server : Server
  container : κ → ContainerBase
  arrived : List Nat
  claimed : List Nat

inductive Action (κ : Type) where
  | prepare (k : κ) (destination : Int)
  | arrive (addr : Nat)
  | pollForAccept (k : κ)
  | transfer (k : κ)

def step [DecidableEq κ] (b : Build) (clientId : RDMAMemory → List Char) (st : State κ) :
    Action κ → Option (State κ)
  | .prepare k destination => do
      let (s, _) ← ((st.container k).prepare b st.server destination clientId).toOption
      return { st with server := s }
  | .arrive addr => do
      let s ← (st.server.onAccept b addr).toOption
      return { st with server := s, arrived := st.arrived ++ [addr] }
  | .pollForAccept k => do
      let (c, s, result) ← ((st.container k).pollForAccept st.server).toOption
      return { st with
        server := s
        container := update st.container k c
        claimed := if result then st.claimed ++ [c.addr] else st.claimed }
  | .transfer k => do
      let (s, _, _) ← ((st.container k).transfer b st.server).toOption
      return { st with server := s }

structure Ready (b : Build) (st : State κ) : Prop where
  keyed : ∀ addr p, (st.server.table b).lookup addr = some p →
    ∃ memory, st.server.heap[p]? = some memory ∧ memory.vaddr = addr
  noAccepts : st.server.incomingAccepts = []
  noneTaken : ∀ k, (st.container k).rdmaMemory = none
  noneArrived : st.arrived = []
  noneClaimed : st.claimed = []

/-- A container polls only when the queue is empty or its head is the container's
own segment. -/
def OwnHead (st : State κ) : Action κ → Prop
  | .pollForAccept k => ∀ p ∈ st.server.peekAccept, ∀ memory ∈ st.server.heap[p]?,
      memory.vaddr = (st.container k).addr
  | .prepare _ _ | .arrive _ | .transfer _ => True

instance (st : State κ) (act : Action κ) : Decidable (OwnHead st act) :=
  match act with
  | .pollForAccept _ => inferInstanceAs (Decidable (∀ _ ∈ _, _))
  | .prepare _ _ | .arrive _ | .transfer _ => .isTrue trivial

/-! ## What a poll does -/

theorem pollForAccept_cases {c c' : ContainerBase} {s s' : Server} {result : Bool}
    (h : c.pollForAccept s = .ok (c', s', result))
    (hown : ∀ p ∈ s.peekAccept, ∀ memory ∈ s.heap[p]?, memory.vaddr = c.addr) :
    (s.incomingAccepts = [] ∧ result = false ∧ s' = s ∧ c' = { c with rdmaMemory := none }) ∨
    ∃ p rest memory, s.incomingAccepts = p :: rest ∧ s.heap[p]? = some memory ∧
      memory.vaddr = c.addr ∧ result = true ∧ s' = { s with incomingAccepts := rest } ∧
      c' = { c with rdmaMemory := some p } := by
  cases hqueue : s.incomingAccepts with
  | nil =>
      have hpeek : s.peekAccept = none := by simp [Server.peekAccept, hqueue]
      rw [ContainerBase.pollForAccept, hpeek] at h
      cases h
      exact .inl ⟨rfl, rfl, rfl, rfl⟩
  | cons p rest =>
      have hpeek : s.peekAccept = some p := by simp [Server.peekAccept, hqueue]
      have hpoll : s.pollForAccept = some ({ s with incomingAccepts := rest }, p) := by
        simp [Server.pollForAccept, hqueue]
      rw [ContainerBase.pollForAccept, hpeek] at h
      obtain ⟨memory, hmemory, h⟩ := bind_eq_ok.mp h
      rw [deref_eq_ok] at hmemory
      have hvaddr : memory.vaddr = c.addr := hown p hpeek memory hmemory
      rw [if_pos hvaddr, hpoll] at h
      cases h
      exact .inr ⟨p, rest, memory, rfl, hmemory, hvaddr, rfl, rfl, rfl⟩

theorem transfer_own {c : ContainerBase} {b : Build} {s s' : Server} {peer : Int} {m : RdmaMessage}
    (h : c.transfer b s = .ok (s', peer, m)) :
    ∃ p, c.rdmaMemory = some p ∧ s'.desk b = s.desk b ∧ m.messageType = .transfer ∧
      (s.desk b).place p = some m.regionInfo.addr := by
  obtain ⟨p, hp, h⟩ := bind_eq_ok.mp h
  obtain ⟨memory, hmemory, h⟩ := bind_eq_ok.mp h
  obtain ⟨⟨s₁, m₁⟩, htransfer, hret⟩ := bind_eq_ok.mp h
  cases hret
  rw [deref_eq_ok] at hp hmemory
  obtain ⟨hdesk, htype, haddr⟩ := Server.transfer_desk htransfer
  refine ⟨p, hp, hdesk, htype, ?_⟩
  rw [Server.desk_place hmemory, haddr]

/-! ## The invariant -/

/-- The acceptances that have arrived are those claimed and those in the queue, and
a container that has taken a record has taken its own. -/
structure Inv (b : Build) (st : State κ) : Prop where
  keyed : ∀ addr p, (st.server.desk b).table.lookup addr = some p →
    (st.server.desk b).place p = some addr
  queue : st.arrived.map some =
    st.claimed.map some ++ (st.server.desk b).accepts.map (st.server.desk b).place
  taken : ∀ k p, (st.container k).rdmaMemory = some p →
    (st.server.desk b).place p = some (st.container k).addr

theorem ready_inv {b : Build} {st : State κ} (h : Ready b st) : Inv b st := by
  refine ⟨?_, ?_, ?_⟩
  · intro addr p hp
    obtain ⟨memory, hmemory, rfl⟩ := h.keyed addr p hp
    exact Server.desk_place hmemory
  · have haccepts : (st.server.desk b).accepts = [] := h.noAccepts
    rw [h.noneArrived, h.noneClaimed, haccepts]
    rfl
  · intro k p hp
    rw [h.noneTaken k] at hp
    cases hp

theorem Inv.moved {b : Build} {st st' : State κ} (h : Inv b st)
    (htable : (st'.server.desk b).table = (st.server.desk b).table)
    (hplace : (st'.server.desk b).place = (st.server.desk b).place) (hqueue : st'.arrived.map some =
      st'.claimed.map some ++ (st'.server.desk b).accepts.map (st.server.desk b).place)
    (htaken : ∀ k p, (st'.container k).rdmaMemory = some p →
      (st.server.desk b).place p = some (st'.container k).addr) : Inv b st' := by
  refine ⟨?_, ?_, ?_⟩
  · rw [htable, hplace]
    exact h.keyed
  · rw [hplace]
    exact hqueue
  · rw [hplace]
    exact htaken

theorem step_inv [DecidableEq κ] {b : Build} {clientId : RDMAMemory → List Char} {st st' : State κ}
    {act : Action κ} (h : Inv b st) (hok : OwnHead st act)
    (hstep : step b clientId st act = some st') : Inv b st' := by
  cases act with
  | prepare k destination =>
      obtain ⟨⟨s, m⟩, hcall, hret⟩ := Option.bind_eq_some_iff.mp hstep
      cases hret
      obtain ⟨p, -, hdesk, -⟩ := Server.prepare_desk (toOption_eq_some hcall)
      refine h.moved (by rw [hdesk]; rfl) (by rw [hdesk, Desk.place_setPair]) ?_ h.taken
      rw [hdesk]
      exact h.queue
  | arrive addr =>
      obtain ⟨s, hcall, hret⟩ := Option.bind_eq_some_iff.mp hstep
      cases hret
      obtain ⟨p, hp, hdesk⟩ := Server.onAccept_desk (toOption_eq_some hcall)
      refine h.moved (by rw [hdesk]) (by rw [hdesk]; rfl) ?_ h.taken
      rw [hdesk]
      simp [h.queue, h.keyed addr p hp]
  | pollForAccept k =>
      obtain ⟨⟨c, s, result⟩, hcall, hret⟩ := Option.bind_eq_some_iff.mp hstep
      cases hret
      rcases pollForAccept_cases (toOption_eq_some hcall) hok with
        ⟨-, rfl, rfl, rfl⟩ | ⟨p, rest, memory, hqueue, hmemory, hvaddr, rfl, rfl, rfl⟩
      · refine h.moved rfl rfl h.queue ?_
        intro j q hq
        by_cases hj : j = k
        · subst hj
          simp at hq
        · simp only [update_of_ne hj] at hq ⊢
          exact h.taken j q hq
      · have hplace : (st.server.desk b).place p = some (st.container k).addr := by
          rw [Server.desk_place hmemory, hvaddr]
        refine h.moved rfl rfl ?_ ?_
        · have haccepts : (st.server.desk b).accepts = p :: rest := hqueue
          have hold := h.queue
          rw [haccepts, List.map_cons, hplace] at hold
          show st.arrived.map some =
            (st.claimed ++ [(st.container k).addr]).map some ++ rest.map (st.server.desk b).place
          rw [hold]
          simp
        · intro j q hq
          by_cases hj : j = k
          · subst hj
            simp only [update_self, Option.some.injEq] at hq ⊢
            rw [← hq, hplace]
          · simp only [update_of_ne hj] at hq ⊢
            exact h.taken j q hq
  | transfer k =>
      obtain ⟨⟨s, peer, m⟩, hcall, hret⟩ := Option.bind_eq_some_iff.mp hstep
      cases hret
      obtain ⟨p, -, hdesk, -⟩ := transfer_own (toOption_eq_some hcall)
      exact h.moved (by rw [hdesk]) (by rw [hdesk]) (by rw [hdesk]; exact h.queue) h.taken

/-! ## Own acceptances -/

theorem map_some_mem {xs : List Nat} {a : Nat} (h : some a ∈ xs.map some) : a ∈ xs := by
  obtain ⟨x, hx, heq⟩ := List.mem_map.mp h
  rwa [← Option.some.inj heq]

/-- In every run in which containers poll only for their own segment at the head,
the acceptances that have arrived are, in order, those of the containers that
were told so and those still in the queue; a poll that returns true takes exactly
the entry of the own segment; and a `Transfer` is of the own segment. -/
theorem acceptances_kept_apart [DecidableEq κ] {b : Build} {clientId : RDMAMemory → List Char}
    {start st : State κ} (hready : Ready b start)
    (hreach : Reaches (step b clientId) OwnHead start st) :
    (∃ waiting, st.arrived = st.claimed ++ waiting ∧
      waiting.map some = st.server.incomingAccepts.map fun p =>
        (st.server.heap[p]?).map RDMAMemory.vaddr) ∧
    (∀ k c s, OwnHead st (.pollForAccept k) →
      (st.container k).pollForAccept st.server = .ok (c, s, true) →
        (st.container k).addr ∈ st.arrived ∧ ∃ p memory, st.server.heap[p]? = some memory ∧
          memory.vaddr = (st.container k).addr ∧
          st.server.incomingAccepts = p :: s.incomingAccepts) ∧
    ∀ k s peer m, (st.container k).transfer b st.server = .ok (s, peer, m) →
      m.messageType = .transfer ∧ m.regionInfo.addr = (st.container k).addr := by
  have hinv : Inv b st :=
    hreach.invariant (fun _ _ _ h hok hstep => step_inv h hok hstep) (ready_inv hready)
  refine ⟨?_, ?_, ?_⟩
  · obtain ⟨claimed, waiting, hsplit, hclaimed, hwaiting⟩ := List.map_eq_append_iff.mp hinv.queue
    refine ⟨waiting, ?_, ?_⟩
    · rw [hsplit, List.map_injective_iff.mpr (Option.some_injective Nat) hclaimed]
    · rw [hwaiting]
      simp [Desk.place, Server.desk, RDMAMemory.slip, Function.comp_def]
  · intro k c s hown hpoll
    rcases pollForAccept_cases hpoll hown with
      ⟨-, hfalse, -⟩ | ⟨p, rest, memory, hqueue, hmemory, hvaddr, -, rfl, -⟩
    · cases hfalse
    · refine ⟨map_some_mem ?_, p, memory, hmemory, hvaddr, hqueue⟩
      have haccepts : (st.server.desk b).accepts = p :: rest := hqueue
      rw [hinv.queue, haccepts, List.map_cons, Server.desk_place hmemory, hvaddr]
      simp
  · intro k s peer m htransfer
    obtain ⟨p, hp, -, htype, hplace⟩ := transfer_own htransfer
    rw [hinv.taken k p hp] at hplace
    exact ⟨htype, (Option.some.inj hplace).symm⟩

def twoContainers : State Bool :=
  { server := (((Server.construct 2 0).allocate 4096 none (some allocatableRangeStart)).1.allocate
      4096 none (some (allocatableRangeStart + 4096))).1
    container := fun k =>
      ⟨if k then allocatableRangeStart + 4096 else allocatableRangeStart, 4096, none⟩
    arrived := []
    claimed := [] }

theorem twoContainers_ready : Ready ⟨false, false⟩ twoContainers := by
  have hkeyed : ∀ e ∈ (twoContainers.server.table ⟨false, false⟩).entries,
      (twoContainers.server.heap[e.2]?).map RDMAMemory.vaddr = some e.1 := by
    decide +kernel
  refine ⟨?_, rfl, fun _ => rfl, rfl, rfl⟩
  intro addr p hp
  exact Option.map_eq_some_iff.mp (hkeyed ⟨addr, p⟩ (AList.mem_lookup_iff.mp hp))

theorem acceptances_kept_apart_two :
    ∃ st, Reaches (step ⟨false, false⟩ fun _ => []) OwnHead twoContainers st ∧
      st.claimed = [allocatableRangeStart] ∧
      ∃ waiting, st.arrived = st.claimed ++ waiting ∧
        waiting = [allocatableRangeStart + 4096] := by
  have hrun : (checkedRun (step ⟨false, false⟩ fun _ => []) OwnHead twoContainers
      [.prepare false 1, .prepare true 1, .pollForAccept true, .arrive allocatableRangeStart,
        .arrive (allocatableRangeStart + 4096), .pollForAccept false, .transfer false]).map
      (fun st => (st.claimed, st.server.incomingAccepts.map fun p =>
        (st.server.heap[p]?).map RDMAMemory.vaddr)) =
      some ([allocatableRangeStart], [some (allocatableRangeStart + 4096)]) := by
    decide +kernel
  obtain ⟨st, hreach, hresult⟩ := reaches_of_map_checkedRun hrun
  simp only [Prod.mk.injEq] at hresult
  obtain ⟨waiting, hsplit, hwaiting⟩ := (acceptances_kept_apart twoContainers_ready hreach).1
  rw [hresult.2] at hwaiting
  refine ⟨st, hreach, hresult.1, waiting, hsplit, ?_⟩
  exact List.map_injective_iff.mpr (Option.some_injective Nat) hwaiting

/-- The `ACCEPT` of the first container's segment arrives and the second container
polls: it is told true, nothing leaves the queue, and its `Transfer` gives the
first container's segment away. -/
theorem other_acceptance_taken :
    ∃ st st' m, run (step ⟨false, false⟩ fun _ => []) twoContainers
        [.prepare false 1, .prepare true 1, .arrive allocatableRangeStart] = some st ∧
      run (step ⟨false, false⟩ fun _ => []) st [.pollForAccept true] = some st' ∧
      st'.claimed = [allocatableRangeStart + 4096] ∧ st'.arrived = [allocatableRangeStart] ∧
      st'.server.incomingAccepts = st.server.incomingAccepts ∧
      ((st'.container true).transfer ⟨false, false⟩ st'.server).toOption.map (fun r => r.2.2) =
        some m ∧
      m.messageType = .transfer ∧ m.regionInfo.addr = allocatableRangeStart ∧
      (st'.container true).addr = allocatableRangeStart + 4096 := by
  have hrun : (run (step ⟨false, false⟩ fun _ => []) twoContainers
      [.prepare false 1, .prepare true 1, .arrive allocatableRangeStart]).bind (fun st =>
        (run (step ⟨false, false⟩ fun _ => []) st [.pollForAccept true]).bind fun st' =>
          (((st'.container true).transfer ⟨false, false⟩ st'.server).toOption.map
            (fun r => r.2.2)).map fun m => (st'.claimed, st'.arrived,
              decide (st'.server.incomingAccepts = st.server.incomingAccepts), m.messageType,
              m.regionInfo.addr, (st'.container true).addr)) =
      some ([allocatableRangeStart + 4096], [allocatableRangeStart], true, .transfer,
        allocatableRangeStart, allocatableRangeStart + 4096) := by
    decide +kernel
  obtain ⟨st, hst, h⟩ := Option.bind_eq_some_iff.mp hrun
  obtain ⟨st', hst', h⟩ := Option.bind_eq_some_iff.mp h
  obtain ⟨m, hm, hresult⟩ := Option.map_eq_some_iff.mp h
  simp only [Prod.mk.injEq, decide_eq_true_eq] at hresult
  obtain ⟨hclaimed, harrived, hqueue, htype, haddr, hown⟩ := hresult
  exact ⟨st, st', m, hst, hst', hclaimed, harrived, hqueue, hm, htype, haddr, hown⟩

end RdmaMigration.Containers.Accepts
