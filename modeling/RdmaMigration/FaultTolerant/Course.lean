import RdmaMigration.FaultTolerant.Books
import RdmaMigration.FaultTolerant.Steps

/-! # The course of a call

How the requests of `allocate`, `deallocate` and `accept` take a call from one phase
to the next. Every call keeps to it, whatever its requests are answered.
-/

namespace RdmaMigration.FaultTolerant

open Lib Network Manager Coordinator

namespace Phase

def goOn : Phase → Option Phase
  | .free => some .free
  | .allocating id => some (.allocating id)
  | .accepting id => some (.accepting id)
  | .holding addr => some (.holding addr)
  | _ => none

def readList (n : Option ZNode) : Phase → Option Phase
  | .allocating id => some (n.elim .free (.adding id))
  | .entered id => some (n.elim .free (.listing id))
  | .naming addr id => some (.removing addr id n)
  | _ => none

def writeList (data : List Char) (version : Option Nat) (written : Bool) : Phase → Option Phase
  | .adding id n =>
      if data = n.data ++ decimalInt id.toInt ++ [','] ∧ version = some n.version then
        some (if written then .entering id else .free)
      else none
  | .listing id n =>
      if data = n.data ++ decimalInt id.toInt ++ [','] ∧ version = some n.version then some .free
      else none
  | .removing addr id n =>
      if (zsToProcessList (textOf n)).map (fun ids => processListToZs (ids.filter (· ≠ id))) =
          some data ∧ version = n.map ZNode.version then
        some (.erasing addr id)
      else none
  | _ => none

def enter (id : Int) (made : Except Fault (Option Nat)) : Phase → Option Phase
  | .entering id' => if id = id'.toInt then some .free else none
  | .accepting id' =>
      if id = id'.toInt then
        match made with
        | .ok _ => some (.entered id')
        | .error _ => some .free
      else none
  | _ => none

/-- The table is searched, the first time for any record, the second time for its
id. -/
def find (addr : Nat) (found : Option (Option Int)) : Phase → Option Phase
  | .free => if found = none then some .free else some (.holding addr)
  | .holding addr' =>
      if addr' = addr then
        match found with
        | some (some id) => some (.naming addr id)
        | _ => some .free
      else none
  | _ => none

def erase (addr : Nat) : Phase → Option Phase
  | .erasing addr' _ => if addr' = addr then some .free else none
  | _ => none

def after (me : Int) (φ : Phase) : (r : Request) → Answer r → Option Phase
  | .get p, n => if p = .process me then φ.readList n else φ.goOn
  | .create p _, _ => if p = .process me then none else φ.goOn
  | .set p data version, written =>
      if p = .process me then φ.writeList data version written else φ.goOn
  | .remove p _, _ => if p = .process me then none else φ.goOn
  | .mmap _ _, _ => φ.goOn
  | .munmap _ _, _ => φ.goOn
  | .enter _ _ id, made => φ.enter id made
  | .find addr, found => φ.find addr found
  | .erase addr, _ => φ.erase addr
  | .reply _ _ _ _, _ => φ.goOn

end Phase

/-! ## Every call keeps to its course -/

section Follows

variable {me : Int}

/-- The script keeps to the course from `φ` on. -/
def Keeps (me : Int) {α : Type} (t : Steps α) (φ : Phase) : Prop :=
  t.Follows (Phase.after me) Phase.settled φ

variable {φ : Phase} {α : Type} {id : Int64} {res size : Nat}

theorem settled_of_goOn (h : φ.goOn = some φ) : φ.settled := by
  cases φ <;> first | exact ⟨rfl, rfl⟩ | cases h

def Aside (me : Int) : Request → Prop
  | .get p | .create p _ | .set p _ _ | .remove p _ => p ≠ .process me
  | .mmap _ _ | .munmap _ _ | .reply _ _ _ _ => True
  | .enter _ _ _ | .find _ | .erase _ => False

theorem Aside.after {r : Request} (h : Aside me r) (φ : Phase) (x : Answer r) :
    φ.after me r x = φ.goOn := by
  cases r with
  | get p => exact if_neg h
  | create p data => exact if_neg h
  | set p data version => exact if_neg h
  | remove p version => exact if_neg h
  | mmap => rfl
  | munmap => rfl
  | reply => rfl
  | enter => cases h
  | find => cases h
  | erase => cases h

theorem keeps_of_only {γ : Type} {t : Steps α} {f : α → Steps γ}
    (hφ : φ.goOn = some φ) (ht : t.Only (Aside me)) (hf : ∀ a, Keeps me (f a) φ) :
    Keeps me (t >>= f) φ :=
  ht.follows_bind (fun _ x hr => (hr.after φ x).trans hφ) (settled_of_goOn hφ) hf

theorem keeps_orThrow {γ : Type} {e : Fault} {x : Option α} {f : α → Steps γ}
    (hφ : φ.settled) (hf : ∀ a, x = some a → Keeps me (f a) φ) :
    Keeps me (Script.orThrow e x >>= f) φ :=
  Script.follows_orThrow hφ hf

theorem aside_ask {r : Request} (h : Aside me r) : (Steps.ask r).Only (Aside me) :=
  ⟨h, fun _ => trivial⟩

theorem getAllocationAddress_aside (size rounds : Nat) :
    (Steps.getAllocationAddress size rounds).Only (Aside me) := by
  induction rounds with
  | zero => trivial
  | succ rounds ih =>
      refine (aside_ask (by simp [Aside])).bind fun n => ?_
      refine (Script.only_orThrow _ _ _).bind fun res => ?_
      refine (aside_ask (by simp [Aside])).bind fun written => ?_
      cases written with
      | false => exact ih
      | true => trivial

theorem deleteMemorySegment_aside (id : Int) :
    (Steps.deleteMemorySegment id).Only (Aside me) := by
  refine (aside_ask (by simp [Aside])).bind fun n => ?_
  exact (Script.only_orThrow _ _ _).bind fun _ => aside_ask (by simp [Aside])

theorem getMemorySegment_aside (id : Int) : (Steps.getMemorySegment id).Only (Aside me) := by
  refine (aside_ask (by simp [Aside])).bind fun n => ?_
  exact Script.only_orThrow _ _ _

theorem settled_free : Phase.free.settled := ⟨rfl, rfl⟩

theorem keeps_add {f : Bool → Steps α}
    (htrue : Keeps me (f true) (.entering id)) (hfalse : Keeps me (f false) .free) :
    Keeps me (Steps.addToProcessList me id.toInt >>= f) (.allocating id) := by
  intro n
  refine ⟨_, if_pos rfl, ?_⟩
  cases n with
  | none => exact hfalse
  | some n =>
      intro written
      refine ⟨_, (if_pos rfl).trans (if_pos ⟨rfl, rfl⟩), ?_⟩
      cases written with
      | false => exact hfalse
      | true => exact htrue

theorem keeps_list {t : Steps α} (h : Keeps me t .free) :
    Keeps me (Steps.addToProcessList me id.toInt >>= fun _ => t) (.entered id) := by
  intro n
  refine ⟨_, if_pos rfl, ?_⟩
  cases n with
  | none => exact h
  | some n => exact fun written => ⟨_, (if_pos rfl).trans (if_pos ⟨rfl, rfl⟩), h⟩

theorem keeps_enter {f : Option Nat → Steps α} (h : ∀ a, Keeps me (f a) .free) :
    Keeps me (Steps.enter res size id.toInt >>= f) (.entering id) := by
  intro made
  refine ⟨_, if_pos rfl, ?_⟩
  cases made with
  | error e => exact settled_free
  | ok a => exact h a

theorem keeps_enter_accepted {f : Option Nat → Steps α} (h : ∀ a, Keeps me (f a) (.entered id)) :
    Keeps me (Steps.enter res size id.toInt >>= f) (.accepting id) := by
  intro made
  cases made with
  | error e => exact ⟨_, if_pos rfl, settled_free⟩
  | ok a => exact ⟨_, if_pos rfl, h a⟩

theorem keeps_recordSegment {address : Nat} {f : Option Nat → Steps α}
    (h : ∀ a φ, φ.settled → Keeps me (f a) φ) :
    Keeps me (Steps.recordSegment me address size id.toInt res >>= f) (.allocating id) := by
  have hgive : ∀ φ : Phase, φ.goOn = some φ →
      Keeps me ((Steps.ask (.munmap res size) >>= fun _ => pure none) >>= f) φ :=
    fun φ hφ _ => ⟨φ, hφ, h none φ (settled_of_goOn hφ)⟩
  rw [Steps.recordSegment, Script.bind_assoc]
  refine keeps_of_only rfl (aside_ask (by simp [Aside])) fun created => ?_
  cases created with
  | false => exact hgive _ rfl
  | true =>
      rw [if_pos rfl, Script.bind_assoc]
      refine keeps_add ?_ (hgive _ rfl)
      show Keeps me (Steps.enter res size id.toInt >>= f) (.entering id)
      exact keeps_enter fun a => h a .free settled_free

inductive Op where
  | allocate (size : Nat) (id : Int64) (mapped : Option Nat) (rounds : Nat)
  | deallocate (id : Int64)
  | accept (addr size : Nat) (source : Int) (id : Int64) (mapped : Option Nat)
  deriving DecidableEq, Repr

def Op.script (me : Int) : Op → Steps Unit
  | .allocate size id mapped rounds => do
      let _ ← Steps.allocate me size id.toInt mapped rounds
  | .deallocate id => do
      let _ ← Steps.deallocate me id.toInt
  | .accept addr size source id mapped => do
      let _ ← Steps.accept me addr size source id.toInt mapped

def Op.phase : Op → Phase
  | .allocate _ id _ _ => .allocating id
  | .deallocate _ => .free
  | .accept _ _ _ id _ => .accepting id

theorem keeps_allocate (size : Nat) (id : Int64) (mapped : Option Nat) (rounds : Nat) :
    Keeps me ((Op.allocate size id mapped rounds).script me) (.allocating id) := by
  have hend : ∀ (a : Option Nat) (φ : Phase), φ.settled →
      Keeps me (pure () : Steps Unit) φ := fun _ _ h => h
  rw [Op.script, Steps.allocate, Script.bind_assoc]
  refine keeps_of_only rfl (getAllocationAddress_aside size rounds) fun address => ?_
  cases mapped with
  | none => exact ⟨rfl, rfl⟩
  | some res =>
      rw [Script.bind_assoc]
      exact keeps_of_only rfl (aside_ask (by simp [Aside])) fun _ => keeps_recordSegment hend

theorem keeps_accept (addr size : Nat) (source : Int) (id : Int64) (res : Nat) :
    Keeps me ((Op.accept addr size source id (some res)).script me) (.accepting id) := by
  rw [Op.script, Steps.accept, Steps.allocateAt]
  simp only [Script.bind_assoc]
  refine keeps_of_only rfl (aside_ask (by simp [Aside])) fun _ => ?_
  refine keeps_enter_accepted fun mem => ?_
  exact keeps_list fun _ => ⟨_, rfl, settled_free⟩

theorem keeps_remove {addr : Nat} {id : Int} {t : Steps α} (h : Keeps me t .free) :
    Keeps me ((Steps.removeFromProcessList me id >>= fun _ => Steps.ask (.erase addr)) >>=
      fun _ => t) (.naming addr id) := by
  rw [Steps.removeFromProcessList]
  simp only [Script.bind_assoc]
  intro n
  refine ⟨_, if_pos rfl, ?_⟩
  refine keeps_orThrow ⟨rfl, rfl⟩ fun ids hids => ?_
  have hdata : (zsToProcessList (textOf n)).map (fun ids =>
      processListToZs (ids.filter (· ≠ id))) =
        some (processListToZs (ids.filter (· ≠ id))) := by
    rw [hids]
    rfl
  intro written
  exact ⟨_, (if_pos rfl).trans (if_pos ⟨hdata, rfl⟩), fun _ => ⟨_, if_pos rfl, h⟩⟩

theorem keeps_deallocate (id : Int64) :
    Keeps me ((Op.deallocate id).script me) .free := by
  have hdelete : Keeps me (Steps.deleteMemorySegment id.toInt >>= fun _ => pure ()) .free :=
    keeps_of_only rfl (deleteMemorySegment_aside _) fun _ => settled_free
  rw [Op.script, Steps.deallocate]
  simp only [Script.bind_assoc]
  refine keeps_of_only rfl (getMemorySegment_aside _) fun map => ?_
  refine keeps_orThrow settled_free fun addr _ => keeps_orThrow settled_free fun size _ => ?_
  rw [Steps.forget]
  simp only [Script.bind_assoc]
  intro found
  cases found with
  | none => exact ⟨_, rfl, hdelete⟩
  | some record =>
      refine ⟨_, rfl, ?_⟩
      intro _
      refine ⟨_, rfl, ?_⟩
      intro found
      match found with
      | none => exact ⟨_, if_pos rfl, settled_free⟩
      | some none => exact ⟨_, if_pos rfl, settled_free⟩
      | some (some id) => exact ⟨_, if_pos rfl, keeps_remove hdelete⟩

end Follows

end RdmaMigration.FaultTolerant
