import RdmaMigration.FaultTolerant.Steps

/-! # The calls without interference

A script carried out request by request on the manager and on a session of
ZooKeeper is the call of `FaultTolerant.Manager` that it spells out.
-/

namespace RdmaMigration.FaultTolerant

open Lib Network Manager Coordinator

def perform (paging : Bool) : (r : Request) → StateT Server Zk (Answer r)
  | .get p => fun s => do return (← Zk.get p, s)
  | .create p data => fun s => do return (← Zk.create p data, s)
  | .set p data version => fun s => do return (← Zk.set p data version, s)
  | .remove p version => fun s => do return (← Zk.remove p version, s)
  | .mmap size res => fun s => return ((), s.mmap size res)
  | .munmap addr size => fun s => return ((), s.munmap addr size)
  | .enter addr size id => fun s =>
      return ((enterRecord paging s addr size id).2, (enterRecord paging s addr size id).1)
  | .find addr => fun s => return (findRecord s addr, s)
  | .erase addr => fun s => return ((), { s with localSegments := s.localSegments.erase addr })
  | .reply addr size source mem => fun s =>
      return ((s.answer (build paging) addr size source mem).2,
        (s.answer (build paging) addr size source mem).1)

def raise {α : Type} (e : Fault) : StateT Server Zk α := fun _ => Zk.orThrow e none

def alone {α : Type} (paging : Bool) (t : Steps α) : StateT Server Zk α :=
  t.interpret (perform paging) raise

section Alone

variable {paging : Bool} {α γ : Type}

theorem alone_ask (r : Request) (next : Answer r → Steps α) :
    alone paging (Script.ask r next) = perform paging r >>= fun x => alone paging (next x) := rfl

theorem stateT_bind (x : StateT Server Zk α) (f : α → StateT Server Zk γ) (s : Server) :
    (x >>= f) s = (x s >>= fun r => f r.1 r.2) := rfl

theorem alone_bind (t : Steps α) (f : α → Steps γ) :
    alone paging (t >>= f) = alone paging t >>= fun a => alone paging (f a) := by
  induction t with
  | ret a => rfl
  | throw e => rfl
  | ask r next ih =>
      rw [Script.ask_bind, alone_ask, alone_ask, bind_assoc]
      exact congrArg _ (funext ih)

def Agrees (paging : Bool) (t : Steps α) (s : Server) (call : Zk (α × Server)) : Prop :=
  alone paging t s = call

def AgreesZk (paging : Bool) (t : Steps α) (call : Zk α) : Prop :=
  ∀ s, Agrees paging t s (do return (← call, s))

theorem Agrees.bind {t : Steps α} {s : Server} {call : Zk (α × Server)} {f : α → Steps γ}
    {g : α × Server → Zk (γ × Server)} (ht : Agrees paging t s call)
    (hf : ∀ a s, Agrees paging (f a) s (g (a, s))) : Agrees paging (t >>= f) s (call >>= g) := by
  rw [Agrees, alone_bind, stateT_bind, ht]
  congr 1
  funext r
  exact hf r.1 r.2

theorem AgreesZk.bind {t : Steps α} {call : Zk α} {f : α → Steps γ} {g : α → Zk γ}
    (ht : AgreesZk paging t call) (hf : ∀ a, AgreesZk paging (f a) (g a)) :
    AgreesZk paging (t >>= f) (call >>= g) := by
  intro s
  have h := Agrees.bind (ht s) (g := fun r => do return (← g r.1, r.2)) fun a s => hf a s
  rw [Agrees] at h ⊢
  rw [h]
  simp only [bind_assoc, pure_bind]

theorem AgreesZk.andThen {t : Steps α} {call : Zk α} {f : α → Steps γ} {s : Server}
    {g : α → Zk (γ × Server)} (ht : AgreesZk paging t call)
    (hf : ∀ a, Agrees paging (f a) s (g a)) : Agrees paging (t >>= f) s (call >>= g) := by
  rw [Agrees, alone_bind, stateT_bind, ht s]
  simp only [bind_assoc, pure_bind]
  congr 1
  funext a
  exact hf a

theorem agreesZk_get (p : Path) : AgreesZk paging (Steps.ask (.get p)) (Zk.get p) := by
  intro s
  show (perform paging (.get p) >>= fun x => pure x) s = _
  rw [bind_pure]
  rfl

theorem agreesZk_create (p : Path) (data : List Char) :
    AgreesZk paging (Steps.ask (.create p data)) (Zk.create p data) := by
  intro s
  show (perform paging (.create p data) >>= fun x => pure x) s = _
  rw [bind_pure]
  rfl

theorem agreesZk_set (p : Path) (data : List Char) (version : Option Nat) :
    AgreesZk paging (Steps.ask (.set p data version)) (Zk.set p data version) := by
  intro s
  show (perform paging (.set p data version) >>= fun x => pure x) s = _
  rw [bind_pure]
  rfl

theorem agreesZk_remove (p : Path) (version : Option Nat) :
    AgreesZk paging (Steps.ask (.remove p version)) (Zk.remove p version) := by
  intro s
  show (perform paging (.remove p version) >>= fun x => pure x) s = _
  rw [bind_pure]
  rfl

theorem agreesZk_pure (a : α) : AgreesZk paging (pure a) (pure a) := fun _ => rfl

theorem agreesZk_orThrow (e : Fault) (x : Option α) :
    AgreesZk paging (Script.orThrow e x) (Zk.orThrow e x) := by
  intro s
  cases x with
  | none => rfl
  | some a => rfl

theorem rewriteSegment_agrees (id : Int) (change : TextMap → TextMap) :
    AgreesZk paging (Steps.rewriteSegment id change) (Coordinator.rewriteSegment id change) :=
  (agreesZk_get _).bind fun _ => (agreesZk_orThrow _ _).bind fun _ => agreesZk_set _ _ _

theorem deleteMemorySegment_agrees (id : Int) :
    AgreesZk paging (Steps.deleteMemorySegment id) (Coordinator.deleteMemorySegment id) :=
  (agreesZk_get _).bind fun _ => (agreesZk_orThrow _ _).bind fun _ => agreesZk_remove _ _

theorem getMemorySegment_agrees (id : Int) :
    AgreesZk paging (Steps.getMemorySegment id) (Coordinator.getMemorySegment id) :=
  (agreesZk_get _).bind fun _ => agreesZk_orThrow _ _

theorem addToProcessList_agrees (serverId id : Int) :
    AgreesZk paging (Steps.addToProcessList serverId id)
      (Coordinator.addToProcessList serverId id) := by
  refine (agreesZk_get _).bind fun n => ?_
  cases n with
  | none => exact agreesZk_pure _
  | some n => exact agreesZk_set _ _ _

theorem removeFromProcessList_agrees (serverId id : Int) :
    AgreesZk paging (Steps.removeFromProcessList serverId id)
      (Coordinator.removeFromProcessList serverId id) :=
  (agreesZk_get _).bind fun _ => (agreesZk_orThrow _ _).bind fun _ =>
    (agreesZk_set _ _ _).bind fun _ => agreesZk_pure _

theorem getAllocationAddress_agrees (size rounds : Nat) :
    AgreesZk paging (Steps.getAllocationAddress size rounds)
      (getAllocationAddressLoop size rounds) := by
  induction rounds with
  | zero => exact agreesZk_orThrow .endIterator none
  | succ rounds ih =>
      refine (agreesZk_get _).bind fun _ => (agreesZk_orThrow _ _).bind fun _ =>
        (agreesZk_set _ _ _).bind fun written => ?_
      cases written with
      | false => exact ih
      | true => exact agreesZk_pure _

/-! ## The manager's calls -/

def resultFirst (call : Zk (Server × α)) : Zk (α × Server) := do
  let (s, a) ← call
  return (a, s)

theorem agrees_local {r : Request} {f : Answer r → Steps α} {s t : Server} {a : Answer r}
    {call : Zk (α × Server)} (hr : perform paging r s = pure (a, t))
    (hf : Agrees paging (f a) t call) : Agrees paging (Steps.ask r >>= f) s call := by
  rw [Agrees, Steps.ask, Script.request_bind, alone_ask, stateT_bind, hr, pure_bind]
  exact hf

theorem perform_enter (s : Server) (res size : Nat) (id : Int) :
    perform paging (.enter res size id) s =
      pure ((enterRecord paging s res size id).2, (enterRecord paging s res size id).1) := rfl

theorem entered_agrees (s : Server) (res : Nat) (made : Option RDMAMemory) :
    Agrees paging (Steps.entered (s.enter (build paging) res made).2)
      (s.enter (build paging) res made).1
      (resultFirst do
        let r ← Zk.orThrow .lengthError made
        return (s.insertRecord (build paging) res r, some r.vaddr)) := by
  cases made with
  | none => rfl
  | some r => rfl

theorem enter_agrees (s : Server) (res size : Nat) (id : Int) :
    Agrees paging (Steps.enter res size id) s
      (resultFirst (FaultTolerant.enter paging s res size id)) :=
  agrees_local (perform_enter s res size id)
    (entered_agrees s res (RDMAMemory.construct s.serverId res size id))

theorem recordSegment_agrees (s : Server) (address size : Nat) (id : Int) (res : Nat) :
    Agrees paging (Steps.recordSegment s.serverId address size id res) s (resultFirst do
      if ← Coordinator.createMemorySegmentNode address size s.serverId (-1) id then
        if ← Coordinator.addToProcessList s.serverId id then
          FaultTolerant.enter paging s res size id
        else return (s.munmap res size, none)
      else return (s.munmap res size, none)) := by
  unfold resultFirst
  rw [bind_assoc]
  refine (agreesZk_create _ _).andThen fun created => ?_
  cases created with
  | false => rfl
  | true =>
      simp only [if_true]
      rw [bind_assoc]
      refine (addToProcessList_agrees _ _).andThen fun listed => ?_
      cases listed with
      | false => rfl
      | true => exact enter_agrees s res size id

/-- In a session of its own the loop of `getAllocationAddress` needs no more rounds
than the others take turns. -/
theorem allocate_agrees (s : Server) (size : Nat) (id : Int) (mapped : Option Nat) (z : Session) :
    alone paging (Steps.allocate s.serverId size id mapped (z.others.length + 1)) s z =
      resultFirst (FaultTolerant.allocate paging s size id mapped) z := by
  have haddress := @getAllocationAddress_agrees paging size (z.others.length + 1)
  cases mapped with
  | none =>
      refine (congrFun (haddress.andThen fun address => rfl) z).trans ?_
      simp only [resultFirst, FaultTolerant.allocate, bind_assoc]
      rfl
  | some res =>
      refine (congrFun (haddress.andThen fun address => agrees_local rfl
        (recordSegment_agrees (s.mmap size res) address size id res)) z).trans ?_
      simp only [resultFirst, FaultTolerant.allocate, bind_assoc]
      rfl

theorem forget_agrees (s : Server) (addr size : Nat) :
    Agrees paging (Steps.forget s.serverId addr size) s
      (do return ((), ← FaultTolerant.forget s addr size)) := by
  refine agrees_local (a := findRecord s addr) rfl ?_
  cases hfound : s.localSegments.lookup addr with
  | none =>
      simp only [findRecord, FaultTolerant.forget, hfound]
      rfl
  | some p =>
      have hrecord : findRecord (s.munmap addr size) addr =
          some ((s.heap[p]?).map RDMAMemory.applicationId) := by
        simp only [findRecord, Server.munmap, hfound, Option.map_some]
      simp only [findRecord, FaultTolerant.forget, hfound, Option.map_some]
      refine agrees_local (t := s.munmap addr size) rfl ?_
      refine agrees_local (a := findRecord (s.munmap addr size) addr) rfl ?_
      rw [hrecord]
      cases s.heap[p]? with
      | none => rfl
      | some memory =>
          simp only [bind_assoc]
          exact (removeFromProcessList_agrees _ _).andThen fun _ => rfl

theorem deallocate_agrees (s : Server) (id : Int) :
    Agrees paging (Steps.deallocate s.serverId id) s
      (resultFirst (FaultTolerant.deallocate s id)) := by
  simp only [resultFirst, FaultTolerant.deallocate, bind_assoc]
  refine (getMemorySegment_agrees id).andThen fun map => ?_
  refine (agreesZk_orThrow _ _).andThen fun addr => (agreesZk_orThrow _ _).andThen fun size => ?_
  have hrest := (@forget_agrees paging s addr size).bind
    (f := fun _ => Steps.deleteMemorySegment id)
    (g := fun r => do return (← Coordinator.deleteMemorySegment id, r.2))
    fun _ t => deleteMemorySegment_agrees id t
  simpa only [bind_assoc, pure_bind] using hrest

theorem listAndReply_agrees (s : Server) (addr size : Nat) (source id : Int) (mem : Option Nat) :
    Agrees paging (do
        let _ ← Steps.addToProcessList s.serverId id
        Steps.ask (.reply addr size source mem)) s
      (resultFirst do
        let _ ← Coordinator.addToProcessList s.serverId id
        return s.answer (build paging) addr size source mem) := by
  simp only [resultFirst, bind_assoc]
  exact (addToProcessList_agrees _ _).andThen fun _ => rfl

theorem acceptMade_agrees (s : Server) (res addr size : Nat) (source id : Int)
    (made : Option RDMAMemory) :
    Agrees paging (do
        let mem ← Steps.entered (s.enter (build paging) res made).2
        let _ ← Steps.addToProcessList s.serverId id
        Steps.ask (.reply addr size source mem)) (s.enter (build paging) res made).1
      (resultFirst do
        let mem ← plain (s.enter (build paging) res made).2
        let _ ← Coordinator.addToProcessList (s.enter (build paging) res made).1.serverId id
        return (s.enter (build paging) res made).1.answer (build paging) addr size source mem) := by
  cases made with
  | none => rfl
  | some r =>
      exact listAndReply_agrees (s.insertRecord (build paging) res r) addr size source id r.vaddr

theorem construct_mmap (s : Server) (size res : Nat) (id : Int) :
    RDMAMemory.construct (s.mmap size res).serverId res size id =
      RDMAMemory.construct s.serverId res size id :=
  have hid : (s.mmap size res).serverId = s.serverId := rfl
  congrArg (fun i => RDMAMemory.construct i res size id) hid

theorem allocateAt_some (b : Build) (s : Server) (size : Nat) (id : Int) (res : Nat) :
    s.allocateAt b size id (some res) =
      (s.mmap size res).enter b res (RDMAMemory.construct s.serverId res size id) := by
  rw [Server.allocateAt]

theorem accept_eq (s : Server) (addr size : Nat) (source id : Int) (mapped : Option Nat) :
    FaultTolerant.accept paging s addr size source id mapped = (do
      let mem ← plain (s.allocateAt (build paging) size id mapped).2
      let _ ← Coordinator.addToProcessList
        (s.allocateAt (build paging) size id mapped).1.serverId id
      return (s.allocateAt (build paging) size id mapped).1.answer (build paging) addr size
        source mem) := rfl

theorem accept_agrees (s : Server) (addr size : Nat) (source id : Int) (mapped : Option Nat) :
    Agrees paging (Steps.accept s.serverId addr size source id mapped) s
      (resultFirst (FaultTolerant.accept paging s addr size source id mapped)) := by
  rw [accept_eq]
  cases mapped with
  | none => exact listAndReply_agrees s addr size source id none
  | some res =>
      rw [allocateAt_some, ← construct_mmap]
      refine agrees_local (t := s.mmap size res) rfl ?_
      show Agrees paging (Steps.ask (.enter res size id) >>= fun result => do
        let mem ← Steps.entered result
        let _ ← Steps.addToProcessList s.serverId id
        Steps.ask (.reply addr size source mem)) (s.mmap size res) _
      refine agrees_local (perform_enter (s.mmap size res) res size id) ?_
      exact acceptMade_agrees (s.mmap size res) res addr size source id _

end Alone

end RdmaMigration.FaultTolerant
