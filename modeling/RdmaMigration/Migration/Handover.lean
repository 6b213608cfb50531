import Mathlib.Data.List.Basic

/-! # Handing over one segment

The migration protocol for one address, over any set of servers: how each server
stands to the segment at that address, which receivers still have to close, what
is under way between any two servers, and which of them have the address
registered for each other. The state machine of the manager refines this one for
every address at once.
-/

namespace RdmaMigration.Migration

variable {ι : Type}

inductive Msg where
  | prepare (size : Nat)
  | accept
  | transfer (size : Nat)
  | done
  deriving DecidableEq, Repr

namespace Msg

def isPrepare : Msg → Bool
  | prepare _ => true
  | _ => false

def isTransfer : Msg → Bool
  | transfer _ => true
  | _ => false

def isDone : Msg → Bool
  | done => true
  | _ => false

end Msg

/-- How a server stands to the segment. `prepared` lists the servers that have
been sent a `PREPARE` and not a `TRANSFER` since the server got the segment. -/
inductive Stage (ι : Type) where
  | absent
  | held (size : Nat) (prepared : List ι)
  | given (size : Nat) (destination : ι) (prepared : List ι)
  | accepted (size : Nat) (source : ι)
  deriving DecidableEq

namespace Stage

def prepared : Stage ι → List ι
  | held _ prepared | given _ _ prepared => prepared
  | absent | accepted _ _ => []

def size : Stage ι → Nat
  | held size _ | given size _ _ | accepted size _ => size
  | absent => 0

def GivenTo (stage : Stage ι) (d : ι) : Prop := ∃ size prepared, stage = given size d prepared

@[simp] theorem not_absent_givenTo (d : ι) : ¬ (absent : Stage ι).GivenTo d := by
  simp [GivenTo]

@[simp] theorem not_held_givenTo (d : ι) (size : Nat) (prepared : List ι) :
    ¬ (held size prepared).GivenTo d := by simp [GivenTo]

@[simp] theorem not_accepted_givenTo (d s : ι) (size : Nat) : ¬ (accepted size s).GivenTo d := by
  simp [GivenTo]

@[simp] theorem given_givenTo (d e : ι) (size : Nat) (prepared : List ι) :
    (given size e prepared).GivenTo d ↔ e = d := by
  simp [GivenTo]

end Stage

/-- The state of the protocol: `pending d s` says that `d` has received the
segment from `s` and has not closed it yet. -/
structure Segment (ι : Type) where
  stage : ι → Stage ι
  pending : ι → ι → Bool
  queue : ι → ι → List Msg
  registered : ι → ι → Option Nat

/-! ## What a queue will do to its receiver

A receiver is ready for a `TRANSFER` of some size if it has accepted a `PREPARE`
of that size. Handling a queue from the front makes it ready and takes the
readiness away again; the walk fails at a `TRANSFER` that would find the receiver
not ready. -/

def walk : Option Nat → List Msg → Option (Option Nat)
  | r, [] => some r
  | _, .prepare size :: q => walk (some size) q
  | r, .transfer size :: q => if r = some size then walk none q else none
  | r, .accept :: q => walk r q
  | r, .done :: q => walk r q

theorem walk_append (r : Option Nat) (q q' : List Msg) :
    walk r (q ++ q') = (walk r q).bind fun r => walk r q' := by
  induction q generalizing r with
  | nil => rfl
  | cons m q ih =>
      cases m with
      | prepare size => exact ih _
      | accept => exact ih _
      | done => exact ih _
      | transfer size =>
          simp only [List.cons_append, walk]
          split
          · exact ih _
          · rfl

variable [DecidableEq ι]

def ready (s : ι) : Stage ι → Option Nat
  | .accepted size source => if source = s then some size else none
  | _ => none

theorem ready_eq_some {s : ι} {stage : Stage ι} {size : Nat} :
    ready s stage = some size ↔ stage = .accepted size s := by
  cases stage with
  | accepted size' source =>
      by_cases h : source = s
      · simp [ready, h]
      · simp [ready, h]
  | absent => simp [ready]
  | held => simp [ready]
  | given => simp [ready]

theorem ready_congr {s : ι} {stage stage' : Stage ι}
    (h : ∀ size, stage' = .accepted size s ↔ stage = .accepted size s) :
    ready s stage' = ready s stage := by
  apply Option.ext
  intro size
  rw [ready_eq_some, ready_eq_some]
  exact h size

def Settled (q : List Msg) : Prop :=
  (∀ size, .prepare size ∉ q) ∨
    ∃ before size after, q = before ++ .transfer size :: after ∧ ∀ n, .prepare n ∉ after

theorem Settled.append {q : List Msg} (h : Settled q) {m : Msg} (hm : m.isPrepare = false) :
    Settled (q ++ [m]) := by
  have hne : ∀ n, Msg.prepare n ≠ m := by
    intro n heq
    rw [← heq] at hm
    simp [Msg.isPrepare] at hm
  rcases h with hnone | ⟨before, size, after, rfl, hafter⟩
  · exact .inl (by simp [hnone, hne])
  · exact .inr ⟨before, size, after ++ [m], by simp, by simp [hafter, hne]⟩

theorem Settled.tail {q : List Msg} {m : Msg} (h : Settled (m :: q)) : Settled q := by
  rcases h with hnone | ⟨before, size, after, heq, hafter⟩
  · exact .inl fun size hmem => hnone size (List.mem_cons_of_mem _ hmem)
  · cases before with
    | nil =>
        simp only [List.nil_append, List.cons.injEq] at heq
        rw [heq.2]
        exact .inl hafter
    | cons m' before =>
        simp only [List.cons_append, List.cons.injEq] at heq
        exact .inr ⟨before, size, after, heq.2, hafter⟩

theorem Settled.not_prepare {q : List Msg} {size : Nat} (h : Settled (.prepare size :: q)) :
    ∃ n, .transfer n ∈ q := by
  rcases h with hnone | ⟨before, n, after, heq, -⟩
  · exact absurd List.mem_cons_self (hnone size)
  · cases before with
    | nil => simp at heq
    | cons m before =>
        simp only [List.cons_append, List.cons.injEq] at heq
        exact ⟨n, by simp [heq.2]⟩

def PrepareFirst (q : List Msg) : Prop :=
  ∃ size, q.find? (fun m => m.isPrepare || m.isDone) = some (.prepare size)

theorem PrepareFirst.append {q : List Msg} (h : PrepareFirst q) (q' : List Msg) :
    PrepareFirst (q ++ q') := by
  obtain ⟨size, hsize⟩ := h
  exact ⟨size, by simp [List.find?_append, hsize]⟩

theorem PrepareFirst.tail {q : List Msg} {m : Msg} (h : PrepareFirst (m :: q))
    (hm : m.isPrepare = false) : m ≠ .done ∧ PrepareFirst q := by
  obtain ⟨size, hsize⟩ := h
  cases m with
  | prepare => simp [Msg.isPrepare] at hm
  | done => simp [Msg.isPrepare, Msg.isDone] at hsize
  | accept => exact ⟨by simp, size, by simpa [Msg.isPrepare, Msg.isDone] using hsize⟩
  | transfer => exact ⟨by simp, size, by simpa [Msg.isPrepare, Msg.isDone] using hsize⟩

theorem prepareFirst_of_mem {q : List Msg} {size : Nat} (h : .prepare size ∈ q)
    (hdone : .done ∉ q) : PrepareFirst q := by
  induction q with
  | nil => simp at h
  | cons m q ih =>
      have hdone' : .done ∉ q := fun hmem => hdone (List.mem_cons_of_mem _ hmem)
      cases m with
      | prepare n => exact ⟨n, by simp [Msg.isPrepare]⟩
      | done => exact absurd List.mem_cons_self hdone
      | accept =>
          obtain ⟨n, hn⟩ := ih (by simpa using h) hdone'
          exact ⟨n, by simpa [Msg.isPrepare, Msg.isDone] using hn⟩
      | transfer =>
          obtain ⟨n, hn⟩ := ih (by simpa using h) hdone'
          exact ⟨n, by simpa [Msg.isPrepare, Msg.isDone] using hn⟩

/-! ## The invariant of a pair of servers -/

/-- Everything the protocol has between two servers, seen from the first: `out` is
on its way from it and `back` to it, `owed` is a close that the other one still
owes it, `owing` one that it owes itself. -/
structure Link (ι : Type) where
  here : Stage ι
  there : Stage ι
  out : List Msg
  back : List Msg
  owed : Bool
  owing : Bool
  mine : Option Nat
  theirs : Option Nat

def Link.flip (l : Link ι) : Link ι :=
  ⟨l.there, l.here, l.back, l.out, l.owing, l.owed, l.theirs, l.mine⟩

def Segment.link (σ : Segment ι) (s d : ι) : Link ι :=
  ⟨σ.stage s, σ.stage d, σ.queue s d, σ.queue d s, σ.pending d s, σ.pending s d,
    σ.registered s d, σ.registered d s⟩

/-- The receiver has given the segment to the sender and waits behind a `PREPARE`
that it cannot accept: nothing of this queue is ever handled again. -/
def Link.Stuck (l : Link ι) (s : ι) : Prop := l.there.GivenTo s ∧ PrepareFirst l.out

structure LinkInv (s d : ι) (l : Link ι) : Prop where
  doneGiven : .done ∈ l.back → l.here.GivenTo d
  owedGiven : l.owed = true → l.here.GivenTo d
  transferGiven : ∀ size, .transfer size ∈ l.out → ∃ prepared, l.here = .given size d prepared
  once : l.out.countP Msg.isTransfer + l.owed.toNat + l.back.countP Msg.isDone ≤ 1
  walks : ∃ r, walk (ready s l.there) l.out = some r ∧
    (d ∈ l.here.prepared → r = some l.here.size)
  oneWay : l.owing = true → l.owed = false ∧ .done ∉ l.back
  acceptedRegistered : ∀ size, l.there = .accepted size s → l.theirs = some size
  preparedRegistered : d ∈ l.here.prepared → l.mine = some l.here.size ∨ l.Stuck s
  transferRegistered : ∀ size, .transfer size ∈ l.out → l.mine = some size ∨ l.Stuck s
  servedRegistered : l.owed = true ∨ .done ∈ l.back → l.mine ≠ none
  echo : (d ∈ l.here.prepared ∨ ∃ size, .transfer size ∈ l.out) → l.owing = true →
    ∃ size, .prepare size ∈ l.out
  settled : l.here.GivenTo d → Settled l.out
  notAgain : l.owed = true ∨ .done ∈ l.back → ∀ size, l.there ≠ .accepted size s
  notPrepared : l.here.GivenTo d → d ∉ l.here.prepared

def LinkInvs (s d : ι) (l : Link ι) : Prop := LinkInv s d l ∧ LinkInv d s l.flip

namespace LinkInv

variable {s d : ι} {l : Link ι}

theorem idle (s d : ι) : LinkInv s d ⟨.absent, .absent, [], [], false, false, none, none⟩ := by
  constructor
  all_goals simp [Stage.prepared, ready, walk]

theorem here_changed (h : LinkInv s d l) {stage : Stage ι}
    (hgiven : ∀ size, (∃ prepared, stage = .given size d prepared) ↔
      ∃ prepared, l.here = .given size d prepared)
    (hprepared : d ∈ stage.prepared → d ∈ l.here.prepared ∧ stage.size = l.here.size) :
    LinkInv s d { l with here := stage } := by
  have hto : stage.GivenTo d ↔ l.here.GivenTo d := exists_congr hgiven
  obtain ⟨r, hr, hrsize⟩ := h.walks
  refine
    { h with
      doneGiven := fun hd => hto.mpr (h.doneGiven hd)
      owedGiven := fun ho => hto.mpr (h.owedGiven ho)
      transferGiven := fun size ht => (hgiven size).mpr (h.transferGiven size ht)
      walks := ⟨r, hr, ?_⟩
      preparedRegistered := ?_
      echo := ?_
      settled := fun hg => h.settled (hto.mp hg)
      notPrepared := fun hg hp => h.notPrepared (hto.mp hg) (hprepared hp).1 }
  · intro hp
    rw [(hprepared hp).2]
    exact hrsize (hprepared hp).1
  · intro hp
    rw [(hprepared hp).2]
    exact h.preparedRegistered (hprepared hp).1
  · rintro (hp | ht) ho
    · exact h.echo (.inl (hprepared hp).1) ho
    · exact h.echo (.inr ht) ho

theorem there_changed (h : LinkInv s d l) {stage : Stage ι}
    (haccepted : ∀ size, stage = .accepted size s ↔ l.there = .accepted size s)
    (hgiven : l.there.GivenTo s → stage.GivenTo s) : LinkInv s d { l with there := stage } := by
  have hstuck : l.Stuck s → ({ l with there := stage } : Link ι).Stuck s :=
    fun hs => ⟨hgiven hs.1, hs.2⟩
  obtain ⟨r, hr, hrsize⟩ := h.walks
  refine
    { h with
      walks := ⟨r, ?_, hrsize⟩
      acceptedRegistered := fun size hs => h.acceptedRegistered size ((haccepted size).mp hs)
      preparedRegistered := fun hp => (h.preparedRegistered hp).imp_right hstuck
      transferRegistered := fun size ht => (h.transferRegistered size ht).imp_right hstuck
      notAgain := fun ho size hs => h.notAgain ho size ((haccepted size).mp hs) }
  dsimp only
  rw [ready_congr haccepted]
  exact hr

theorem transfer_not_mem (h : LinkInv s d l) (ho : l.owed = true ∨ .done ∈ l.back) (size : Nat) :
    .transfer size ∉ l.out := by
  intro hmem
  have hcount : 0 < l.out.countP Msg.isTransfer :=
    List.countP_pos_iff.mpr ⟨_, hmem, rfl⟩
  have honce := h.once
  rcases ho with ho | hd
  · rw [ho] at honce
    simp only [Bool.toNat_true] at honce
    omega
  · have hcount' : 0 < l.back.countP Msg.isDone := List.countP_pos_iff.mpr ⟨_, hd, rfl⟩
    omega

/-- A receiver that has not closed yet finds no further `PREPARE` in its queue. -/
theorem prepare_not_head (h : LinkInv s d l) (ho : l.owed = true ∨ .done ∈ l.back) {size : Nat}
    {rest : List Msg} : l.out ≠ .prepare size :: rest := by
  intro heq
  have hgiven : l.here.GivenTo d := ho.elim h.owedGiven h.doneGiven
  have hsettled := h.settled hgiven
  rw [heq] at hsettled
  obtain ⟨n, hn⟩ := hsettled.not_prepare
  refine h.transfer_not_mem ho n ?_
  rw [heq]
  exact List.mem_cons_of_mem _ hn

theorem quiet (h : LinkInv s d l) (hhere : ¬ l.here.GivenTo d) :
    .done ∉ l.back ∧ l.owed = false ∧ ∀ n, .transfer n ∉ l.out := by
  refine ⟨fun hmem => hhere (h.doneGiven hmem), ?_, ?_⟩
  · cases ho : l.owed with
    | false => rfl
    | true => exact absurd (h.owedGiven ho) hhere
  · intro n hmem
    obtain ⟨prepared, hgiven⟩ := h.transferGiven n hmem
    exact hhere ⟨n, prepared, hgiven⟩

theorem peer_sends (h : LinkInv d s l.flip) (hhere : ¬ l.here.GivenTo d) {stage : Stage ι}
    {m : Msg} {mine : Option Nat} (hstage : ready d stage = ready d l.here)
    (haccepted : ∀ n, stage ≠ .accepted n d) (hm : m ≠ .done) :
    LinkInv d s ({ l with here := stage, out := l.out ++ [m], mine := mine } : Link ι).flip := by
  have honce := h.once
  obtain ⟨r, hr, hrsize⟩ := h.walks
  have hnotDone : m.isDone = false := by
    cases m with
    | done => exact absurd rfl hm
    | prepare | accept | transfer => rfl
  have hmem : ∀ {m'}, .done ∈ l.out ++ [m'] → m' ≠ .done → .done ∈ l.out := by
    intro m' hmem hne
    rcases List.mem_append.mp hmem with hmem | hmem
    · exact hmem
    · exact absurd (List.mem_singleton.mp hmem).symm hne
  have hfree : ¬ l.flip.Stuck d := fun hs => hhere hs.1
  refine ⟨fun hd => h.doneGiven (hmem hd hm), h.owedGiven, h.transferGiven, ?_, ⟨r, ?_, hrsize⟩,
    fun ho => ⟨(h.oneWay ho).1, fun hd => (h.oneWay ho).2 (hmem hd hm)⟩,
    fun n hn => absurd hn (haccepted n),
    fun hp => .inl ((h.preparedRegistered hp).resolve_right hfree),
    fun n hn => .inl ((h.transferRegistered n hn).resolve_right hfree),
    fun ho => h.servedRegistered (ho.imp_right fun hd => hmem hd hm), h.echo, h.settled,
    fun _ n => haccepted n, h.notPrepared⟩
  · simpa [Link.flip, List.countP_append, hnotDone] using honce
  · dsimp only [Link.flip] at hr ⊢
    rw [hstage]
    exact hr

end LinkInv

/-! ## The steps of a pair of servers -/

namespace LinkInvs

variable {s d : ι} {l : Link ι}

theorem prepare (h : LinkInvs s d l) {size : Nat} {prepared : List ι}
    (hhere : l.here = .held size prepared) :
    LinkInvs s d { l with
      here := .held size (d :: prepared)
      out := l.out ++ [.prepare size]
      mine := some size } := by
  obtain ⟨h, h'⟩ := h
  have hheld : ¬ l.here.GivenTo d := by simp [hhere]
  obtain ⟨hdone, howed, htransfer⟩ := h.quiet hheld
  obtain ⟨r, hr, -⟩ := h.walks
  have hnotGiven : ¬ (Stage.held size (d :: prepared)).GivenTo d := by simp
  have hnotTransfer : ∀ n, .transfer n ∉ l.out ++ [Msg.prepare size] := by simp [htransfer]
  refine ⟨⟨fun hmem => absurd hmem hdone, fun ho => ?_, fun n hmem => absurd hmem (hnotTransfer n),
    ?_, ⟨some size, ?_, fun _ => rfl⟩, h.oneWay, h.acceptedRegistered, fun _ => .inl rfl,
    fun n hmem => absurd hmem (hnotTransfer n), fun _ => by simp, fun _ _ => ⟨size, by simp⟩,
    fun hg => absurd hg hnotGiven, h.notAgain, fun hg => absurd hg hnotGiven⟩,
    h'.peer_sends hheld (by simp [ready, hhere]) (by simp) (by simp)⟩
  · simp [howed] at ho
  · simpa [List.countP_append, Msg.isTransfer] using h.once
  · simp [walk_append, hr, walk]

theorem transfer (h : LinkInvs s d l) {size : Nat} {prepared : List ι}
    (hhere : l.here = .held size prepared) (hd : d ∈ prepared) :
    LinkInvs s d { l with
      here := .given size d (prepared.filter (· ≠ d))
      out := l.out ++ [.transfer size] } := by
  obtain ⟨h, h'⟩ := h
  have hheld : ¬ l.here.GivenTo d := by simp [hhere]
  obtain ⟨hdone, howed, htransfer⟩ := h.quiet hheld
  have hd' : d ∈ l.here.prepared := by simpa [hhere, Stage.prepared] using hd
  have hsize : l.here.size = size := by simp [hhere, Stage.size]
  obtain ⟨r, hr, hrsize⟩ := h.walks
  rw [hsize] at hrsize
  have hcount : l.out.countP Msg.isTransfer = 0 := by
    rw [List.countP_eq_zero]
    intro m hm
    cases m with
    | transfer n => exact absurd hm (htransfer n)
    | prepare | accept | done => simp [Msg.isTransfer]
  have hcount' : l.back.countP Msg.isDone = 0 := by
    rw [List.countP_eq_zero]
    intro m hm
    cases m with
    | done => exact absurd hm hdone
    | prepare | accept | transfer => simp [Msg.isDone]
  have hlast : ∀ n, .transfer n ∈ l.out ++ [Msg.transfer size] → n = size := by
    intro n hmem
    rcases List.mem_append.mp hmem with hmem | hmem
    · exact absurd hmem (htransfer n)
    · simpa using hmem
  have hregistered := (h.preparedRegistered hd').imp_right fun hs =>
    (⟨hs.1, hs.2.append [.transfer size]⟩ : l.there.GivenTo s ∧ PrepareFirst _)
  rw [hsize] at hregistered
  have hnot : d ∉ prepared.filter (· ≠ d) := by simp
  refine ⟨⟨fun hmem => absurd hmem hdone, fun ho => ?_,
    fun n hmem => ⟨prepared.filter (· ≠ d), by rw [hlast n hmem]⟩, ?_,
    ⟨none, ?_, fun hp => absurd hp hnot⟩, h.oneWay, h.acceptedRegistered,
    fun hp => absurd hp hnot, fun n hmem => ?_, fun ho => ?_, fun _ ho => ?_,
    fun _ => .inr ⟨l.out, size, [], rfl, by simp⟩, h.notAgain, fun _ => hnot⟩,
    h'.peer_sends hheld (by simp [ready, hhere]) (by simp) (by simp)⟩
  · simp [howed] at ho
  · simp [List.countP_append, Msg.isTransfer, hcount, hcount', howed]
  · simp [walk_append, hr, walk, hrsize hd']
  · rw [hlast n hmem]
    exact hregistered
  · simp [howed, hdone] at ho
  · obtain ⟨n, hn⟩ := h.echo (.inl hd') ho
    exact ⟨n, List.mem_append_left _ hn⟩

/-- The receiver closes. If it has already prepared the segment for the way back,
its `PREPARE` is in front of the `CLOSE` and its queue is stuck from now on. -/
theorem close (h : LinkInvs s d l) (howing : l.owing = true) :
    LinkInvs s d { l with owing := false, mine := none, out := l.out ++ [.done] } := by
  obtain ⟨h, h'⟩ := h
  obtain ⟨howed, hdoneBack⟩ := h.oneWay howing
  have hgiven : l.there.GivenTo s := h'.owedGiven howing
  have hdoneOut : .done ∉ l.out := by
    intro hmem
    have hcount : 0 < l.out.countP Msg.isDone := List.countP_pos_iff.mpr ⟨_, hmem, rfl⟩
    have honce := h'.once
    simp only [Link.flip, howing, Bool.toNat_true] at honce
    omega
  have hstuck : (d ∈ l.here.prepared ∨ ∃ n, .transfer n ∈ l.out) →
      ({ l with owing := false, mine := none, out := l.out ++ [.done] } : Link ι).Stuck s := by
    intro hwhy
    obtain ⟨n, hn⟩ := h.echo hwhy howing
    exact ⟨hgiven, (prepareFirst_of_mem hn hdoneOut).append _⟩
  have hmem : ∀ {n}, .transfer n ∈ l.out ++ [Msg.done] → .transfer n ∈ l.out := by simp
  obtain ⟨r, hr, hrsize⟩ := h.walks
  obtain ⟨r', hr', hrsize'⟩ := h'.walks
  refine ⟨⟨h.doneGiven, h.owedGiven, fun n hn => h.transferGiven n (hmem hn), ?_,
    ⟨r, ?_, hrsize⟩, by simp, h.acceptedRegistered, fun hp => .inr (hstuck (.inl hp)),
    fun n hn => .inr (hstuck (.inr ⟨n, hmem hn⟩)), fun ho => ?_, fun _ ho => by simp at ho,
    fun hg => (h.settled hg).append rfl, h.notAgain, h.notPrepared⟩,
    ⟨fun _ => hgiven, by simp [Link.flip], h'.transferGiven, ?_, ⟨r', hr', hrsize'⟩, fun ho => ?_,
    ?_, h'.preparedRegistered, h'.transferRegistered, fun _ => h'.servedRegistered (.inl howing),
    h'.echo, h'.settled, fun _ => h'.notAgain (.inl howing), h'.notPrepared⟩⟩
  · simpa [List.countP_append, Msg.isTransfer] using h.once
  · simp [walk_append, hr, walk]
  · simp [howed, hdoneBack] at ho
  · have honce := h'.once
    simp only [Link.flip, howing, Bool.toNat_true] at honce
    simp only [Link.flip, List.countP_append, List.countP_singleton, Msg.isDone, Bool.toNat_false]
    simp only [if_true]
    omega
  · simp [Link.flip, howed] at ho
  · intro n hn
    exact absurd hn (h'.notAgain (.inl howing) n)

theorem accept (h : LinkInvs s d l) {size : Nat} {rest : List Msg}
    (hhere : l.here = .absent) (hback : l.back = .prepare size :: rest) :
    LinkInvs s d { l with
      here := .accepted size d
      back := rest
      out := l.out ++ [.accept]
      mine := some size } := by
  obtain ⟨h, h'⟩ := h
  have hheld : ¬ l.here.GivenTo d := by simp [hhere]
  obtain ⟨hdone, howed, htransfer⟩ := h.quiet hheld
  have hfresh : ¬ (l.flip.owed = true ∨ .done ∈ l.flip.back) := fun ho =>
    h'.prepare_not_head ho hback
  have hfree : ¬ l.flip.Stuck d := fun hs => hheld hs.1
  have hsub : ∀ {m}, m ∈ rest → m ∈ l.back := fun hm => by
    rw [hback]
    exact List.mem_cons_of_mem _ hm
  have hnotTransfer : ∀ n, .transfer n ∉ l.out ++ [Msg.accept] := by simp [htransfer]
  obtain ⟨r', hr', hrsize'⟩ := h'.walks
  have honce := h.once
  have honce' := h'.once
  dsimp only [Link.flip] at hr' honce' hfresh
  rw [hhere, hback] at hr'
  rw [hback] at honce honce'
  refine ⟨⟨fun hmem => absurd (hsub hmem) hdone, fun ho => ?_,
    fun n hmem => absurd hmem (hnotTransfer n), ?_, ?_, fun ho => absurd (.inl ho) hfresh,
    h.acceptedRegistered, fun hp => by simp [Stage.prepared] at hp,
    fun n hmem => absurd hmem (hnotTransfer n), fun _ => by simp,
    fun _ ho => absurd (.inl ho) hfresh, fun hg => by simp at hg, fun ho => ?_,
    fun hg => by simp at hg⟩,
    ⟨fun hmem => ?_, h'.owedGiven, fun n hmem => h'.transferGiven n (hsub hmem), ?_,
    ⟨r', ?_, hrsize'⟩, fun ho => ⟨(h'.oneWay ho).1, fun hmem => ?_⟩, fun n hn => ?_,
    fun hp => .inl ((h'.preparedRegistered hp).resolve_right hfree),
    fun n hmem => .inl ((h'.transferRegistered n (hsub hmem)).resolve_right hfree),
    fun ho => ?_, fun _ ho => ?_, fun hg => ?_, fun ho => ?_, h'.notPrepared⟩⟩
  · simp [howed] at ho
  · simpa [List.countP_append, Msg.isTransfer, Msg.isDone] using honce
  · obtain ⟨r, hr, -⟩ := h.walks
    exact ⟨r, by simp [walk_append, hr, walk], fun hp => by simp [Stage.prepared] at hp⟩
  · rcases ho with ho | hmem
    · simp [howed] at ho
    · exact absurd (hsub hmem) hdone
  · exact absurd (.inr (by simpa [Link.flip] using hmem)) hfresh
  · simpa [Link.flip, List.countP_append, Msg.isTransfer, Msg.isDone] using honce'
  · simpa [Link.flip, ready, walk] using hr'
  · exact absurd (.inr (by simpa [Link.flip] using hmem)) hfresh
  · simp only [Link.flip, Stage.accepted.injEq] at hn
    simp [Link.flip, hn.1]
  · exact absurd (ho.imp_right fun hmem => by simpa [Link.flip] using hmem) hfresh
  · simp [Link.flip, howed] at ho
  · have hsettled := h'.settled hg
    dsimp only [Link.flip] at hsettled ⊢
    rw [hback] at hsettled
    exact hsettled.tail
  · exact absurd (ho.imp_right fun hmem => by simpa [Link.flip] using hmem) hfresh

theorem transfer_ready (h : LinkInvs s d l) {size : Nat} {rest : List Msg}
    (hback : l.back = .transfer size :: rest) :
    l.here = .accepted size d ∧ (∃ prepared, l.there = .given size s prepared) ∧
      l.mine = some size ∧ l.theirs = some size := by
  obtain ⟨-, h'⟩ := h
  have hmem : .transfer size ∈ l.flip.out := by simp [Link.flip, hback]
  obtain ⟨r, hr, -⟩ := h'.walks
  dsimp only [Link.flip] at hr
  rw [hback, walk] at hr
  have hready : ready d l.here = some size := by
    by_contra hne
    simp [hne] at hr
  have hhere : l.here = .accepted size d := ready_eq_some.mp hready
  refine ⟨hhere, h'.transferGiven size hmem, h'.acceptedRegistered size hhere, ?_⟩
  refine (h'.transferRegistered size hmem).resolve_right fun hs => ?_
  have hgiven : l.here.GivenTo d := hs.1
  simp [hhere] at hgiven

theorem receive (h : LinkInvs s d l) {size : Nat} {rest : List Msg}
    (hback : l.back = .transfer size :: rest) :
    LinkInvs s d { l with here := .held size [], back := rest, owing := true } := by
  obtain ⟨hhere, ⟨prepared, hthere⟩, hmine, htheirs⟩ := h.transfer_ready hback
  obtain ⟨h, h'⟩ := h
  have hheld : ¬ l.here.GivenTo d := by simp [hhere]
  have hnotGiven : ¬ (Stage.held size ([] : List ι)).GivenTo d := by simp
  obtain ⟨hdone, howed, htransfer⟩ := h.quiet hheld
  have hsub : ∀ {m}, m ∈ rest → m ∈ l.back := fun hm => by
    rw [hback]
    exact List.mem_cons_of_mem _ hm
  have honce := h.once
  have honce' := h'.once
  have hfirst : l.owing = false ∧ rest.countP Msg.isTransfer = 0 ∧
      l.out.countP Msg.isDone = 0 := by
    simp only [Link.flip, hback, List.countP_cons, Msg.isTransfer, if_true] at honce'
    refine ⟨?_, by omega, by omega⟩
    cases ho : l.owing with
    | false => rfl
    | true =>
        simp only [ho, Bool.toNat_true] at honce'
        omega
  obtain ⟨howing, hlast, hnoDone⟩ := hfirst
  have hnoTransfer : ∀ n, .transfer n ∉ rest := fun n hmem => by
    have := List.countP_eq_zero.mp hlast _ hmem
    simp [Msg.isTransfer] at this
  obtain ⟨r, hr, -⟩ := h.walks
  obtain ⟨r', hr', hrsize'⟩ := h'.walks
  dsimp only [Link.flip] at hr'
  rw [hback, hhere] at hr'
  refine ⟨⟨fun hmem => absurd (hsub hmem) hdone, fun ho => ?_,
    fun n hmem => absurd hmem (htransfer n), ?_, ⟨r, hr, fun hp => by simp [Stage.prepared] at hp⟩,
    fun _ => ⟨howed, fun hmem => hdone (hsub hmem)⟩, h.acceptedRegistered,
    fun hp => by simp [Stage.prepared] at hp, fun n hmem => absurd hmem (htransfer n), fun ho => ?_,
    fun hwhy => ?_, fun hg => absurd hg hnotGiven, fun ho => ?_, fun hg => absurd hg hnotGiven⟩,
    ⟨h'.doneGiven, fun _ => ⟨size, prepared, hthere⟩, fun n hmem => absurd hmem (hnoTransfer n), ?_,
    ⟨r', ?_, hrsize'⟩, fun ho => ?_, fun n hn => ?_, fun hp => ?_,
    fun n hmem => absurd hmem (hnoTransfer n), fun _ => ?_, fun _ ho => ?_, fun hg => ?_,
    fun _ n => by simp [Link.flip], h'.notPrepared⟩⟩
  · simp [howed] at ho
  · rw [hback] at honce
    simpa [List.countP_cons, Msg.isDone] using honce
  · rcases ho with ho | hmem
    · simp [howed] at ho
    · exact absurd (hsub hmem) hdone
  · rcases hwhy with hp | ⟨n, hn⟩
    · simp [Stage.prepared] at hp
    · exact absurd hn (htransfer n)
  · rcases ho with ho | hmem
    · simp [howed] at ho
    · exact absurd (hsub hmem) hdone
  · simp [Link.flip, hlast, hnoDone]
  · simpa [Link.flip, ready, walk] using hr'
  · simp [Link.flip, howed] at ho
  · simp [Link.flip] at hn
  · have hdirect := (h'.preparedRegistered hp).resolve_right fun hs => hheld hs.1
    exact .inl hdirect
  · simp [Link.flip, htheirs]
  · simp [Link.flip, howed] at ho
  · have hsettled := h'.settled hg
    dsimp only [Link.flip] at hsettled ⊢
    rw [hback] at hsettled
    exact hsettled.tail

theorem onAccept (h : LinkInvs s d l) {rest : List Msg} (hback : l.back = .accept :: rest) :
    LinkInvs s d { l with back := rest } := by
  obtain ⟨h, h'⟩ := h
  have hmem : ∀ {m}, m ∈ rest → m ∈ l.back := fun hm => by
    rw [hback]
    exact List.mem_cons_of_mem _ hm
  have htail : PrepareFirst l.back → PrepareFirst rest := fun hp => by
    rw [hback] at hp
    exact (hp.tail rfl).2
  have hstuck : l.flip.Stuck d → ({ l with back := rest } : Link ι).flip.Stuck d :=
    fun hs => ⟨hs.1, htail hs.2⟩
  have honce := h.once
  have honce' := h'.once
  obtain ⟨r', hr', hrsize'⟩ := h'.walks
  dsimp only [Link.flip] at honce' hr'
  rw [hback] at honce honce' hr'
  refine ⟨{ h with
      doneGiven := fun hd => h.doneGiven (hmem hd)
      once := by simpa [Msg.isDone] using honce
      oneWay := fun ho => ⟨(h.oneWay ho).1, fun hd => (h.oneWay ho).2 (hmem hd)⟩
      servedRegistered := fun ho => h.servedRegistered (ho.imp_right hmem)
      notAgain := fun ho => h.notAgain (ho.imp_right hmem) },
    ⟨h'.doneGiven, h'.owedGiven, fun n hn => h'.transferGiven n (hmem hn),
    by simpa [Link.flip, Msg.isTransfer] using honce', ⟨r', hr', hrsize'⟩, h'.oneWay,
    h'.acceptedRegistered, fun hp => (h'.preparedRegistered hp).imp_right hstuck,
    fun n hn => (h'.transferRegistered n (hmem hn)).imp_right hstuck, h'.servedRegistered,
    fun hwhy ho => ?_, fun hg => ?_, h'.notAgain, h'.notPrepared⟩⟩
  · obtain ⟨n, hn⟩ := h'.echo (hwhy.imp_right fun ⟨n, hn⟩ => ⟨n, hmem hn⟩) ho
    simp only [Link.flip, hback, List.mem_cons, reduceCtorEq, false_or] at hn
    exact ⟨n, hn⟩
  · have hsettled := h'.settled hg
    dsimp only [Link.flip] at hsettled
    rw [hback] at hsettled
    exact hsettled.tail

theorem done_ready (h : LinkInvs s d l) {rest : List Msg} (hback : l.back = .done :: rest) :
    l.here.GivenTo d ∧ l.mine ≠ none := by
  have hmem : .done ∈ l.back := by simp [hback]
  exact ⟨h.1.doneGiven hmem, h.1.servedRegistered (.inr hmem)⟩

theorem onClose (h : LinkInvs s d l) {size : Nat} {prepared : List ι} {rest : List Msg}
    (hhere : l.here = .given size d prepared) (hback : l.back = .done :: rest) :
    LinkInvs s d { l with here := .held size prepared, back := rest, mine := none } := by
  obtain ⟨h, h'⟩ := h
  have hdone : l.owed = true ∨ .done ∈ l.back := .inr (by simp [hback])
  have htransfer := h.transfer_not_mem hdone
  have hnot : d ∉ prepared := by simpa [hhere, Stage.prepared] using h.notPrepared (by simp [hhere])
  have honce := h.once
  have honce' := h'.once
  obtain ⟨r, hr, -⟩ := h.walks
  obtain ⟨r', hr', hrsize'⟩ := h'.walks
  dsimp only [Link.flip] at honce' hr'
  rw [hback] at honce honce' hr'
  rw [hhere] at hr'
  have hlast : l.owed = false ∧ .done ∉ rest := by
    simp only [List.countP_cons, Msg.isDone, if_true] at honce
    refine ⟨?_, fun hmem => ?_⟩
    · cases ho : l.owed with
      | false => rfl
      | true =>
          simp only [ho, Bool.toNat_true] at honce
          omega
    · have hcount : 0 < rest.countP Msg.isDone := List.countP_pos_iff.mpr ⟨_, hmem, rfl⟩
      omega
  have hserved : ¬ (l.owed = true ∨ .done ∈ rest) := by simp [hlast.1, hlast.2]
  have hmem : ∀ {m}, m ∈ rest → m ∈ l.back := fun hm => by
    rw [hback]
    exact List.mem_cons_of_mem _ hm
  have hfree : ¬ l.flip.Stuck d := fun hs => by
    have hfirst : PrepareFirst l.back := hs.2
    obtain ⟨n, hn⟩ := hfirst
    simp [hback, Msg.isPrepare, Msg.isDone] at hn
  refine ⟨⟨fun hd => absurd hd hlast.2, fun ho => absurd (.inl ho) hserved,
    fun n hn => absurd hn (htransfer n), ?_, ⟨r, hr, fun hp => absurd hp hnot⟩,
    fun ho => ⟨(h.oneWay ho).1, hlast.2⟩, h.acceptedRegistered, fun hp => absurd hp hnot,
    fun n hn => absurd hn (htransfer n), fun ho => absurd ho hserved, fun hwhy => ?_,
    fun hg => by simp at hg, fun ho => absurd ho hserved, fun hg => by simp at hg⟩,
    ⟨h'.doneGiven, h'.owedGiven, fun n hn => h'.transferGiven n (hmem hn), ?_, ⟨r', ?_, hrsize'⟩,
    h'.oneWay, fun n hn => by simp [Link.flip] at hn,
    fun hp => .inl ((h'.preparedRegistered hp).resolve_right hfree),
    fun n hn => .inl ((h'.transferRegistered n (hmem hn)).resolve_right hfree),
    h'.servedRegistered, fun _ ho => ?_, fun hg => ?_, fun _ n => by simp [Link.flip],
    h'.notPrepared⟩⟩
  · simp only [List.countP_cons, Msg.isDone, if_true] at honce
    dsimp only
    omega
  · rcases hwhy with hp | ⟨n, hn⟩
    · exact absurd hp hnot
    · exact absurd hn (htransfer n)
  · simpa [Link.flip, Msg.isTransfer] using honce'
  · simpa [Link.flip, ready, walk] using hr'
  · simp [Link.flip, hlast.1] at ho
  · have hsettled := h'.settled hg
    dsimp only [Link.flip] at hsettled
    rw [hback] at hsettled
    exact hsettled.tail

end LinkInvs

end RdmaMigration.Migration
