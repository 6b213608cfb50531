import RdmaMigration.FaultTolerant.Decline
import RdmaMigration.Manager.Desk

/-! # Who a segment is given to

`Prepare` enters its destination as the pair of the record at once, before any
answer. Whoever's `ACCEPT` arrives then, the record is entered into the queue of
acceptances with the pair that the latest `Prepare` left, and it is this pair that
`Transfer` gives the segment to and that goes into the record in ZooKeeper.

The machine below is one server that prepares its segments for any of the others.
Each `Prepare` has a number, so that an acceptance can be told from one of an
earlier `Prepare`.
-/

namespace RdmaMigration.FaultTolerant.Agreement

open Lib Function Network Manager Coordinator Decline FaultTolerant.System

/-- `requests d` are the `PREPARE`s that server `d` has not answered, `answers s`
the answers of server `s` that have not been handled. `latest` is the number and
the destination of the latest `Prepare` of the segment at an address, `accepted`
lists which server has accepted which address on which `Prepare`, and `taken` the
records that `PollForAccept` returned and that were not transferred since. -/
structure State where
  server : Server
  zk : Store
  requests : Int → List (Nat × RdmaMessage)
  answers : Int → List (Nat × RdmaMessage)
  calls : Nat
  latest : Nat → Option (Nat × Int)
  accepted : List (Nat × Int × Nat)
  taken : List Nat

inductive Action where
  | prepare (addr size : Nat) (d : Int)
  | answer (d : Int) (mapped : Option Nat)
  | arrive (s : Int) (others : List (Store → Store))
  | pollForAccept
  | transfer (p : Nat)

/-- What `accept` answers when `mmap` has returned `mapped`. -/
def answerTo (m : RdmaMessage) : Option Nat → RdmaMessage
  | none => sendDecline 0 m.regionInfo.length
  | some mem => sendAccept mem m.regionInfo.length

variable (b : Build) (n : Nat) (remote : Server) (clientId : RDMAMemory → List Char)

def prepareStep (st : State) (addr size : Nat) (d : Int) : Option State := do
  let p ← (st.server.table b).lookup addr
  let memory ← st.server.heap[p]?
  if memory.state ≠ .clean then none else
  let (s, m) ← (st.server.prepare b addr size d clientId).toOption
  return { st with
    server := s
    requests := update st.requests d (st.requests d ++ [(st.calls, m)])
    calls := st.calls + 1
    latest := update st.latest addr (some (st.calls, d)) }

def answerStep (st : State) (d : Int) (mapped : Option Nat) : Option State :=
  match st.requests d with
  | [] => none
  | (k, m) :: rest =>
      some { st with
        requests := update st.requests d rest
        answers := update st.answers d (st.answers d ++ [(k, answerTo m mapped)])
        accepted := (mapped.map fun mem => (k, d, mem)).toList ++ st.accepted }

def arriveStep (st : State) (s : Int) (others : List (Store → Store)) : Option State :=
  match st.answers s with
  | [] => none
  | (_, m) :: rest => do
      let ((server, _), t) ←
        (pollerRound b st.server remote m s none ⟨st.zk, others, false⟩).toOption
      return { st with
        server := server
        zk := t.store
        answers := update st.answers s rest }

def transferStep (st : State) (p : Nat) : Option State := do
  if p ∉ st.taken then none else
  let memory ← st.server.heap[p]?
  let (s, _) ← (st.server.transfer b memory.vaddr memory.size memory.pair).toOption
  return { st with server := s, taken := st.taken.erase p }

def step (st : State) : Action → Option State
  | .prepare addr size d => if d ∈ servers n then prepareStep b clientId st addr size d else none
  | .answer d mapped => answerStep st d mapped
  | .arrive s others => arriveStep b remote st s others
  | .pollForAccept => do
      let (s, p) ← st.server.pollForAccept
      return { st with server := s, taken := p :: st.taken }
  | .transfer p => transferStep b st p

structure Ready (st : State) : Prop where
  keyed : ∀ addr p, (st.server.table b).lookup addr = some p →
    ∃ memory, st.server.heap[p]? = some memory ∧ memory.vaddr = addr
  noAccepts : st.server.incomingAccepts = []
  noRequests : ∀ d, st.requests d = []
  noAnswers : ∀ s, st.answers s = []
  noneTaken : st.taken = []

/-- A segment is prepared only when no earlier `Prepare` of it is still to be
answered or its acceptance still to be used, and a destination maps a segment
where it is asked to or not at all. -/
def OneAtATime (st : State) : Action → Prop
  | .prepare addr _ _ =>
      (∀ d ∈ servers n, ∀ r ∈ st.requests d ++ st.answers d, r.2.regionInfo.addr ≠ addr) ∧
      ∀ p ∈ (st.server.table b).lookup addr, p ∉ st.server.incomingAccepts ∧ p ∉ st.taken
  | .answer d mapped => ∀ r ∈ (st.requests d).head?, ∀ mem ∈ mapped, mem = r.2.regionInfo.addr
  | .arrive _ _ | .pollForAccept | .transfer _ => True

instance (st : State) (act : Action) : Decidable (OneAtATime b n st act) :=
  match act with
  | .prepare _ _ _ => inferInstanceAs (Decidable (_ ∧ _))
  | .answer _ _ => inferInstanceAs (Decidable (∀ _ ∈ _, _))
  | .arrive _ _ | .pollForAccept | .transfer _ => .isTrue trivial

/-! ## The destination

Of the destinations the machine has the answers only. -/

theorem answer_reply (b : Build) (s : Server) (m : RdmaMessage) (source : Int)
    (mapped : Option Nat) :
    (s.answer b m.regionInfo.addr m.regionInfo.length source mapped).2 = answerTo m mapped := by
  cases mapped with
  | none => rfl
  | some res => rfl

theorem accept_reply {paging : Bool} {s s' : Server} {m reply : RdmaMessage} {source id : Int}
    {mapped : Option Nat} {z t : Session}
    (h : accept paging s m.regionInfo.addr m.regionInfo.length source id mapped z =
      .ok ((s', reply), t)) : reply = answerTo m mapped := by
  rcases accept_cases h with ⟨rfl, hanswer⟩ | ⟨res, r, rfl, -, hanswer⟩
  · exact (congrArg Prod.snd hanswer).trans (answer_reply ..)
  · exact (congrArg Prod.snd hanswer).trans (answer_reply ..)

/-- The answer is that of the destination's poller to the `PREPARE`, in both builds. -/
theorem prepared_reply {b : Build} {s s' remote : Server} {m : RdmaMessage} {source : Int}
    {mapped : Option Nat} {z t : Session} {reply : Option RdmaMessage}
    (hm : m.messageType = .prepare)
    (h : pollerRound b s remote m source mapped z = .ok ((s', reply), t)) :
    reply = some (answerTo m mapped) := by
  unfold pollerRound at h
  split at h
  · simp only [handle, hm, getMessageType] at h
    obtain ⟨⟨s₁, m₁⟩, z₁, haccept, hret⟩ := Zk.bind_eq_ok.mp h
    cases Zk.pure_eq_ok.mp hret
    rw [accept_reply haccept]
  · obtain ⟨⟨s₁, reply₁⟩, hhandle, heq⟩ := plain_eq_ok.mp h
    cases heq
    simp only [Server.handle, hm, getMessageType] at hhandle
    obtain ⟨⟨s₂, m₂⟩, haccept, hret⟩ := bind_eq_ok.mp hhandle
    cases hret
    rcases Server.accept_cases haccept with ⟨rfl, -, rfl⟩ | ⟨res, r, rfl, -, -, rfl⟩
    · rfl
    · rfl

/-! ## What the answers do at the source -/

section Calls

variable {b : Build} {s s' remote : Server} {m : RdmaMessage} {source : Int} {z t : Session}
  {reply : Option RdmaMessage}

theorem onAccept_desk {paging : Bool} {addr : Nat} (h : onAccept s addr z = .ok (s', t)) :
    ∃ p, (s.desk (build paging)).table.lookup addr = some p ∧
      s'.desk (build paging) = { s.desk (build paging) with
        accepts := (s.desk (build paging)).accepts ++ [p] } := by
  obtain ⟨p, hp, rfl⟩ := onAccept_cases h
  exact ⟨p, hp, rfl⟩

theorem accepted_desk (hm : m.messageType = .accept)
    (h : pollerRound b s remote m source none z = .ok ((s', reply), t)) :
    ∃ p, (s.desk b).table.lookup m.regionInfo.addr = some p ∧
      s'.desk b = { s.desk b with accepts := (s.desk b).accepts ++ [p] } := by
  unfold pollerRound at h
  split at h
  · rename_i hb
    have hbuild : b = build b.paging := by
      cases b
      cases hb
      rfl
    simp only [handle, hm, getMessageType] at h
    obtain ⟨s₁, z₁, haccept, hret⟩ := Zk.bind_eq_ok.mp h
    have hs : s' = s₁ := congrArg (fun x => x.1.1) (Zk.pure_eq_ok.mp hret)
    rw [hs, hbuild]
    exact onAccept_desk haccept
  · obtain ⟨⟨s₁, reply₁⟩, hhandle, heq⟩ := plain_eq_ok.mp h
    simp only [Server.handle, hm, getMessageType] at hhandle
    obtain ⟨s₂, haccept, hret⟩ := bind_eq_ok.mp hhandle
    have hs : s' = s₁ := congrArg (fun x => x.1.1) heq
    have hs₁ : s₂ = s₁ := congrArg Prod.fst (Except.ok.inj hret)
    rw [hs, ← hs₁]
    exact Server.onAccept_desk haccept

theorem declined_desk (hm : m.messageType = .decline)
    (h : pollerRound b s remote m source none z = .ok ((s', reply), t)) :
    s'.desk b = s.desk b := by
  obtain rfl := Server.deregisterMemory_cases (RefusedPrepare.handled_decline hm h)
  rfl

end Calls

/-! ## The invariant -/

def Paired (desk : Desk) (latest : Nat → Option (Nat × Int)) (addr k : Nat) (d : Int) : Prop :=
  ∃ p, desk.table.lookup addr = some p ∧ (desk.slips[p]?).map Slip.pair = some d ∧
    latest addr = some (k, d)

/-- Record `p` is paired with the server that accepted its latest `Prepare`. -/
def Agreed (desk : Desk) (latest : Nat → Option (Nat × Int)) (accepted : List (Nat × Int × Nat))
    (p : Nat) : Prop :=
  ∃ addr k d, desk.table.lookup addr = some p ∧ Paired desk latest addr k d ∧
    (k, d, addr) ∈ accepted

structure Inv (b : Build) (n : Nat) (st : State) : Prop where
  keyed : ∀ addr p, (st.server.desk b).table.lookup addr = some p →
    (st.server.desk b).place p = some addr
  inside : ∀ d, st.requests d ++ st.answers d ≠ [] → d ∈ servers n
  requests : ∀ d, ∀ r ∈ st.requests d,
    Paired (st.server.desk b) st.latest r.2.regionInfo.addr r.1 d
  answers : ∀ s, ∀ r ∈ st.answers s, r.2.messageType = .decline ∨
    r.2.messageType = .accept ∧
      Paired (st.server.desk b) st.latest r.2.regionInfo.addr r.1 s ∧
      (r.1, s, r.2.regionInfo.addr) ∈ st.accepted
  queued : ∀ p ∈ (st.server.desk b).accepts ++ st.taken,
    Agreed (st.server.desk b) st.latest st.accepted p

section Steps

variable {b : Build} {n : Nat} {remote : Server} {clientId : RDMAMemory → List Char}
  {st st' : State}

theorem ready_inv (h : Ready b st) : Inv b n st := by
  refine ⟨?_, ?_, ?_, ?_, ?_⟩
  · intro addr p hp
    obtain ⟨memory, hmemory, rfl⟩ := h.keyed addr p hp
    exact Server.desk_place hmemory
  · intro d hd
    rw [h.noRequests, h.noAnswers] at hd
    exact absurd rfl hd
  · intro d r hr
    rw [h.noRequests] at hr
    cases hr
  · intro s r hr
    rw [h.noAnswers] at hr
    cases hr
  · have haccepts : (st.server.desk b).accepts = [] := h.noAccepts
    intro p hp
    rw [haccepts, h.noneTaken] at hp
    cases hp

theorem Paired.prepare {desk : Desk} {latest : Nat → Option (Nat × Int)} {addr addr' k k' p : Nat}
    {d d' : Int} (hkeyed : ∀ addr p, desk.table.lookup addr = some p → desk.place p = some addr)
    (hp : desk.table.lookup addr = some p) (hne : addr' ≠ addr)
    (h : Paired desk latest addr' k' d') :
    Paired (desk.setPair p d) (update latest addr (some (k, d))) addr' k' d' := by
  obtain ⟨q, hq, hpair, hlatest⟩ := h
  have hpq : p ≠ q := by
    rintro rfl
    have hplace := hkeyed addr p hp
    rw [hkeyed addr' p hq] at hplace
    exact hne (Option.some.inj hplace)
  refine ⟨q, hq, ?_, ?_⟩
  · simpa [Desk.setPair, hpq] using hpair
  · rw [update_of_ne hne]
    exact hlatest

theorem paired_self {desk : Desk} (latest : Nat → Option (Nat × Int)) {addr p : Nat} (k : Nat)
    (d : Int) (hkeyed : desk.place p = some addr) (hp : desk.table.lookup addr = some p) :
    Paired (desk.setPair p d) (update latest addr (some (k, d))) addr k d := by
  obtain ⟨slip, hslip, -⟩ := Option.map_eq_some_iff.mp hkeyed
  exact ⟨p, hp, by simp [Desk.setPair, hslip], update_self ..⟩

theorem prepareStep_inv {addr size : Nat} {d : Int} (h : Inv b n st) (hd : d ∈ servers n)
    (hok : OneAtATime b n st (.prepare addr size d))
    (hstep : prepareStep b clientId st addr size d = some st') : Inv b n st' := by
  obtain ⟨p, hp, hstep⟩ := Option.bind_eq_some_iff.mp hstep
  obtain ⟨memory, -, hstep⟩ := Option.bind_eq_some_iff.mp hstep
  split at hstep
  · cases hstep
  obtain ⟨⟨s, m⟩, hcall, hret⟩ := Option.bind_eq_some_iff.mp hstep
  cases hret
  obtain ⟨q, hq, hdesk, htype, haddr, -⟩ := Server.prepare_desk (toOption_eq_some hcall)
  have hqp : q = p := Option.some.inj (hq.symm.trans hp)
  subst hqp
  have hkeyed := h.keyed
  -- Nothing under way or in hand concerns the segment that is prepared.
  have hrequests : ∀ d', ∀ r ∈ st.requests d', r.2.regionInfo.addr ≠ addr := fun d' r hr =>
    hok.1 d' (h.inside d' (List.ne_nil_of_mem (List.mem_append_left _ hr))) r
      (List.mem_append_left _ hr)
  have hanswers : ∀ s', ∀ r ∈ st.answers s', r.2.regionInfo.addr ≠ addr := fun s' r hr =>
    hok.1 s' (h.inside s' (List.ne_nil_of_mem (List.mem_append_right _ hr))) r
      (List.mem_append_right _ hr)
  refine ⟨?_, ?_, ?_, ?_, ?_⟩
  · intro a r hr
    simp only [hdesk, Desk.place_setPair] at hr ⊢
    exact hkeyed a r hr
  · intro d' hne
    by_cases hd' : d' = d
    · rwa [hd']
    · simp only [update_of_ne hd'] at hne
      exact h.inside d' hne
  · intro d' r hr
    simp only [hdesk]
    by_cases hd' : d' = d
    · subst hd'
      simp only [update_self, List.mem_append, List.mem_singleton] at hr
      rcases hr with hold | rfl
      · exact (h.requests d' r hold).prepare hkeyed hp (hrequests d' r hold)
      · rw [haddr]
        exact paired_self st.latest st.calls d' (hkeyed addr q hp) hp
    · simp only [update_of_ne hd'] at hr
      exact (h.requests d' r hr).prepare hkeyed hp (hrequests d' r hr)
  · intro s' r hr
    simp only [hdesk]
    rcases h.answers s' r hr with hdecline | ⟨haccept, hpaired, haccepted⟩
    · exact .inl hdecline
    · exact .inr ⟨haccept, hpaired.prepare hkeyed hp (hanswers s' r hr), haccepted⟩
  · intro r hr
    simp only [hdesk] at hr ⊢
    obtain ⟨a, k, d', ha, hpaired, haccepted⟩ := h.queued r hr
    have hne : a ≠ addr := by
      rintro rfl
      have hrq : q = r := Option.some.inj (hp.symm.trans ha)
      subst hrq
      obtain ⟨hnotQueued, hnotTaken⟩ := hok.2 q hp
      exact (List.mem_append.mp hr).elim hnotQueued hnotTaken
    exact ⟨a, k, d', ha, hpaired.prepare hkeyed hp hne, haccepted⟩

theorem Agreed.more {desk : Desk} {latest : Nat → Option (Nat × Int)}
    {accepted accepted' : List (Nat × Int × Nat)} {p : Nat} (h : Agreed desk latest accepted p)
    (hmore : ∀ x ∈ accepted, x ∈ accepted') : Agreed desk latest accepted' p := by
  obtain ⟨addr, k, d, hp, hpaired, haccepted⟩ := h
  exact ⟨addr, k, d, hp, hpaired, hmore _ haccepted⟩

theorem answerStep_inv {d : Int} {mapped : Option Nat} (h : Inv b n st)
    (hok : OneAtATime b n st (.answer d mapped)) (hstep : answerStep st d mapped = some st') :
    Inv b n st' := by
  unfold answerStep at hstep
  split at hstep
  · cases hstep
  rename_i k m rest hrequests
  cases hstep
  have hd : d ∈ servers n := h.inside d (by simp [hrequests])
  have hpaired := h.requests d (k, m) (by simp [hrequests])
  have hmem : ∀ mem ∈ mapped, mem = m.regionInfo.addr := hok (k, m) (by simp [hrequests])
  have hmore : ∀ x ∈ st.accepted,
      x ∈ (mapped.map fun mem => (k, d, mem)).toList ++ st.accepted :=
    fun x hx => List.mem_append_right _ hx
  refine ⟨h.keyed, ?_, ?_, ?_, fun p hp => (h.queued p hp).more hmore⟩
  · intro d' hne
    by_cases hd' : d' = d
    · rwa [hd']
    · simp only [update_of_ne hd'] at hne
      exact h.inside d' hne
  · intro d' r hr
    by_cases hd' : d' = d
    · subst hd'
      simp only [update_self] at hr
      exact h.requests d' r (by rw [hrequests]; exact List.mem_cons_of_mem _ hr)
    · simp only [update_of_ne hd'] at hr
      exact h.requests d' r hr
  · intro s r hr
    have hold : r ∈ st.answers s → r.2.messageType = .decline ∨
        r.2.messageType = .accept ∧
          Paired (st.server.desk b) st.latest r.2.regionInfo.addr r.1 s ∧
          (r.1, s, r.2.regionInfo.addr) ∈
            (mapped.map fun mem => (k, d, mem)).toList ++ st.accepted := fun hr =>
      (h.answers s r hr).imp_right fun ⟨htype, hp, haccepted⟩ => ⟨htype, hp, hmore _ haccepted⟩
    by_cases hs : s = d
    · subst hs
      simp only [update_self, List.mem_append, List.mem_singleton] at hr
      rcases hr with hr | rfl
      · exact hold hr
      · cases mapped with
        | none => exact .inl rfl
        | some mem =>
            have heq : mem = m.regionInfo.addr := hmem mem rfl
            subst heq
            exact .inr ⟨rfl, hpaired, by simp [answerTo, sendAccept, RdmaMessage.ofRange]⟩
    · simp only [update_of_ne hs] at hr
      exact hold hr

theorem arriveStep_inv {s : Int} {others : List (Store → Store)} (h : Inv b n st)
    (hstep : arriveStep b remote st s others = some st') : Inv b n st' := by
  unfold arriveStep at hstep
  split at hstep
  · cases hstep
  rename_i k m rest hanswers
  obtain ⟨⟨⟨server, reply⟩, t⟩, hcall, hret⟩ := Option.bind_eq_some_iff.mp hstep
  cases hret
  have hhandled := toOption_eq_some hcall
  have hs : s ∈ servers n := h.inside s (by simp [hanswers])
  have hkept : ∀ s', ∀ r ∈ update st.answers s rest s', r ∈ st.answers s' := by
    intro s' r hr
    by_cases hs' : s' = s
    · subst hs'
      rw [update_self] at hr
      rw [hanswers]
      exact List.mem_cons_of_mem _ hr
    · rwa [update_of_ne hs'] at hr
  have hinside : ∀ d, st.requests d ++ update st.answers s rest d ≠ [] →
      d ∈ servers n := by
    intro d hne
    by_cases hd : d = s
    · rwa [hd]
    · rw [update_of_ne hd] at hne
      exact h.inside d hne
  rcases h.answers s (k, m) (by simp [hanswers]) with hdecline | ⟨haccept, hpaired, haccepted⟩
  · have hdesk := declined_desk hdecline hhandled
    refine ⟨?_, hinside, ?_, fun s' r hr => ?_, ?_⟩
    · rw [hdesk]
      exact h.keyed
    · rw [hdesk]
      exact h.requests
    · rw [hdesk]
      exact h.answers s' r (hkept s' r hr)
    · rw [hdesk]
      exact h.queued
  · obtain ⟨p, hp, hdesk⟩ := accepted_desk haccept hhandled
    refine ⟨?_, hinside, ?_, fun s' r hr => ?_, fun q hq => ?_⟩
    · rw [hdesk]
      exact h.keyed
    · rw [hdesk]
      exact h.requests
    · rw [hdesk]
      exact h.answers s' r (hkept s' r hr)
    · rw [hdesk] at hq ⊢
      rcases List.mem_append.mp hq with hqueue | htaken
      · rcases List.mem_append.mp hqueue with hold | hnew
        · exact h.queued q (List.mem_append_left _ hold)
        · rw [List.mem_singleton.mp hnew]
          exact ⟨m.regionInfo.addr, k, s, hp, hpaired, haccepted⟩
      · exact h.queued q (List.mem_append_right _ htaken)

theorem pollForAccept_inv {s : Server} {p : Nat} (h : Inv b n st)
    (hpoll : st.server.pollForAccept = some (s, p)) :
    Inv b n { st with server := s, taken := p :: st.taken } := by
  unfold Server.pollForAccept at hpoll
  split at hpoll
  · cases hpoll
  rename_i q rest hqueue
  cases hpoll
  refine ⟨h.keyed, h.inside, h.requests, h.answers, fun r hr => h.queued r ?_⟩
  have haccepts : (st.server.desk b).accepts = p :: rest := hqueue
  rw [haccepts]
  exact List.perm_middle.subset hr

theorem transferStep_inv {p : Nat} (h : Inv b n st) (hstep : transferStep b st p = some st') :
    Inv b n st' := by
  unfold transferStep at hstep
  split at hstep
  · cases hstep
  obtain ⟨memory, -, hstep⟩ := Option.bind_eq_some_iff.mp hstep
  obtain ⟨⟨s, m⟩, hcall, hret⟩ := Option.bind_eq_some_iff.mp hstep
  cases hret
  have hdesk := (Server.transfer_desk (toOption_eq_some hcall)).1
  refine ⟨?_, h.inside, ?_, ?_, fun q hq => ?_⟩
  · rw [hdesk]
    exact h.keyed
  · rw [hdesk]
    exact h.requests
  · rw [hdesk]
    exact h.answers
  · rw [hdesk] at hq ⊢
    refine h.queued q ?_
    exact (List.mem_append.mp hq).elim (List.mem_append_left _)
      fun hmem => List.mem_append_right _ (List.mem_of_mem_erase hmem)

theorem step_inv {act : Action} (h : Inv b n st) (hok : OneAtATime b n st act)
    (hstep : step b n remote clientId st act = some st') : Inv b n st' := by
  cases act with
  | prepare addr size d =>
      obtain ⟨hd, hstep⟩ := Option.ite_none_right_eq_some.mp hstep
      exact prepareStep_inv h hd hok hstep
  | answer d mapped => exact answerStep_inv h hok hstep
  | arrive s others => exact arriveStep_inv h hstep
  | pollForAccept =>
      obtain ⟨⟨s, p⟩, hpoll, hret⟩ := Option.bind_eq_some_iff.mp hstep
      cases hret
      exact pollForAccept_inv h hpoll
  | transfer p => exact transferStep_inv h hstep

/-! ## Agreement -/

theorem Inv.agreed {p : Nat} {memory : RDMAMemory} (h : Inv b n st) (hp : p ∈ st.taken)
    (hmemory : st.server.heap[p]? = some memory) :
    ∃ k, st.latest memory.vaddr = some (k, memory.pair) ∧
      (k, memory.pair, memory.vaddr) ∈ st.accepted := by
  obtain ⟨addr, k, d, haddr, ⟨q, hq, hpair, hlatest⟩, haccepted⟩ :=
    h.queued p (List.mem_append_right _ hp)
  have hpq : q = p := Option.some.inj (hq.symm.trans haddr)
  subst hpq
  have hvaddr : memory.vaddr = addr := by
    have hplace := h.keyed addr q haddr
    rw [Server.desk_place hmemory] at hplace
    exact Option.some.inj hplace
  have hd : memory.pair = d := by
    rw [Server.desk_slip hmemory] at hpair
    exact Option.some.inj hpair
  subst hvaddr
  subst hd
  exact ⟨k, hlatest, haccepted⟩

/-- The poller on an `ACCEPT` that writes `destination` into the record of the
segment. -/
def acceptWriting (server : Server) (p : Nat) (id destination : Int) :
    Zk (Server × Option RdmaMessage) := do
  let _ ← updateSegmentDestination id destination
  return ({ server with incomingAccepts := server.incomingAccepts ++ [p] }, none)

theorem handle_accept_writing {paging : Bool} {server remote : Server} {m : RdmaMessage} {s : Int}
    {p : Nat} {memory : RDMAMemory} (hm : m.messageType = .accept)
    (hp : server.localSegments.lookup m.regionInfo.addr = some p)
    (hmemory : server.heap[p]? = some memory) :
    handle paging server remote m s none =
      acceptWriting server p memory.applicationId memory.pair := by
  funext z
  simp only [handle, hm, getMessageType, onAccept, hp, acceptWriting]
  simp only [Zk.orThrow, deref, Except.map, bind, StateT.bind, Except.bind, hmemory]
  cases updateSegmentDestination memory.applicationId memory.pair z with
  | error e => rfl
  | ok r => rfl

/-- In every run in which no segment is prepared again before its acceptance has
been used, a record that `PollForAccept` returned is paired with the server that
accepted its latest `Prepare`, and with fault tolerance the destination written
on an `ACCEPT` is the server it came from. -/
theorem transfers_agreed {start : State} (hready : Ready b start)
    (hreach : Reaches (step b n remote clientId) (OneAtATime b n) start st) :
    (∀ p memory, p ∈ st.taken → st.server.heap[p]? = some memory →
      ∃ k, st.latest memory.vaddr = some (k, memory.pair) ∧
        (k, memory.pair, memory.vaddr) ∈ st.accepted) ∧
    ∀ s k m rest, b.faultTolerant = true → st.answers s = (k, m) :: rest →
      m.messageType = .accept →
        ∃ p memory, st.server.localSegments.lookup m.regionInfo.addr = some p ∧
          st.server.heap[p]? = some memory ∧
          handle b.paging st.server remote m s none =
            acceptWriting st.server p memory.applicationId s := by
  have hinv : Inv b n st :=
    hreach.invariant (fun _ _ _ h hok hstep => step_inv h hok hstep) (ready_inv hready)
  refine ⟨fun p memory => hinv.agreed, ?_⟩
  intro s k m rest hb hanswers hm
  rcases hinv.answers s (k, m) (by simp [hanswers]) with hdecline | ⟨-, ⟨p, hp, hpair, -⟩, -⟩
  · rw [hm] at hdecline
    cases hdecline
  · have hlookup : st.server.localSegments.lookup m.regionInfo.addr = some p := by
      simpa [Server.desk, Server.table, hb] using hp
    obtain ⟨slip, hslip, hs⟩ := Option.map_eq_some_iff.mp hpair
    have hheap : (st.server.heap[p]?).map RDMAMemory.slip = some slip := by
      rw [← List.getElem?_map]
      exact hslip
    obtain ⟨memory, hmemory, rfl⟩ := Option.map_eq_some_iff.mp hheap
    refine ⟨p, memory, hlookup, hmemory, ?_⟩
    rw [handle_accept_writing hm hlookup hmemory]
    exact congrArg _ hs

end Steps

/-! ## Two destinations -/

/-- Server 0 of three with a segment of 4096 bytes and id 7, in ZooKeeper as well. -/
def oneSegment : State :=
  { server := ((Server.construct 3 0).allocateAt (build false) 4096 7
      (some allocatableRangeStart)).1
    zk := update (initialStore 3) (.segment 7)
      (some ⟨mapToZs (segmentMap allocatableRangeStart 4096 0 (-1) 7), 0⟩)
    requests := fun _ => []
    answers := fun _ => []
    calls := 0
    latest := fun _ => none
    accepted := []
    taken := [] }

theorem oneSegment_ready : Ready (build false) oneSegment := by
  have hkeyed : ∀ e ∈ (oneSegment.server.table (build false)).entries,
      (oneSegment.server.heap[e.2]?).map RDMAMemory.vaddr = some e.1 := by
    decide +kernel
  refine ⟨?_, rfl, fun _ => rfl, fun _ => rfl, rfl⟩
  intro addr p hp
  exact Option.map_eq_some_iff.mp (hkeyed ⟨addr, p⟩ (AList.mem_lookup_iff.mp hp))

def runs : State → Action → Option State :=
  step (build false) 3 (Server.construct 3 1) fun memory => decimalInt memory.applicationId

theorem transfers_agreed_one :
    ∃ st memory k, Reaches runs (OneAtATime (build false) 3) oneSegment st ∧ st.taken = [0] ∧
      st.server.heap[0]? = some memory ∧ memory.pair = 1 ∧
      st.latest memory.vaddr = some (k, 1) ∧ (k, 1, memory.vaddr) ∈ st.accepted := by
  have hrun : (checkedRun runs (OneAtATime (build false) 3) oneSegment
      [.prepare allocatableRangeStart 4096 1, .answer 1 (some allocatableRangeStart), .arrive 1 [],
        .pollForAccept]).map (fun st => (st.taken, (st.server.heap[0]?).map RDMAMemory.pair)) =
      some ([0], some 1) := by
    decide +kernel
  obtain ⟨st, hreach, hresult⟩ := reaches_of_map_checkedRun hrun
  simp only [Prod.mk.injEq] at hresult
  obtain ⟨memory, hmemory, hpair⟩ := Option.map_eq_some_iff.mp hresult.2
  obtain ⟨k, hlatest, haccepted⟩ := (transfers_agreed oneSegment_ready hreach).1 0 memory
    (by simp [hresult.1]) hmemory
  rw [hpair] at hlatest haccepted
  exact ⟨st, memory, k, hreach, hresult.1, hmemory, hpair, hlatest, haccepted⟩

/-- The segment is prepared for server 1 and then for server 2, and server 1
accepts. -/
def twoDestinations : List Action :=
  [.prepare allocatableRangeStart 4096 1, .prepare allocatableRangeStart 4096 2,
    .answer 1 (some allocatableRangeStart), .arrive 1 [], .pollForAccept]

/-- The record that `PollForAccept` returns is then paired with server 2, which has
accepted nothing, and server 2 is the destination written. -/
theorem transfer_to_server_not_accepting :
    ∃ st memory, run runs oneSegment twoDestinations = some st ∧ st.taken = [0] ∧
      st.server.heap[0]? = some memory ∧ memory.pair = 2 ∧
      st.accepted = [(0, 1, allocatableRangeStart)] ∧
      ((st.zk.get (.segment 7)).bind fun node => zsToMap node.data).map
        (fun map => map.field Key.destination) = some (decimalInt 2) := by
  have hrun : (run runs oneSegment twoDestinations).map (fun st =>
      (st.taken, (st.server.heap[0]?).map RDMAMemory.pair, st.accepted)) =
      some ([0], some 2, [(0, 1, allocatableRangeStart)]) := by
    decide +kernel
  have hwritten : (run runs oneSegment twoDestinations).map (fun st =>
      ((st.zk.get (.segment 7)).bind fun node => zsToMap node.data).map
        (fun map => map.field Key.destination)) = some (some (decimalInt 2)) := by
    decide +kernel
  obtain ⟨st, hst, hresult⟩ := Option.map_eq_some_iff.mp hrun
  simp only [Prod.mk.injEq] at hresult
  obtain ⟨htaken, hpaired, haccepted⟩ := hresult
  obtain ⟨memory, hmemory, hpair⟩ := Option.map_eq_some_iff.mp hpaired
  rw [hst, Option.map_some, Option.some.injEq] at hwritten
  exact ⟨st, memory, hst, htaken, hmemory, hpair, haccepted, hwritten⟩

end RdmaMigration.FaultTolerant.Agreement
