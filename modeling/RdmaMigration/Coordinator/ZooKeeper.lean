import Mathlib.Logic.Function.Basic
import RdmaMigration.Coordinator.Text

/-! # ZooKeeper

A store of nodes with data and a version. A node is created with version 0, every
`set` counts it up, and `set` and `remove` take effect only on the version they
name. What a client is told about a write is a matter of its own: an operation
may be refused, and one that took effect may be reported as failed.
-/

namespace RdmaMigration.Coordinator

open Function

inductive Path where
  | allocator
  | segment (id : Int)
  | process (server : Int)
  deriving DecidableEq, Repr

structure ZNode where
  data : List Char
  version : Nat
  deriving DecidableEq, Repr

abbrev Store := Path → Option ZNode

def bufLen : Nat := 4096

namespace Store

/-- `ZooKeeper::get` of a node that is there: at most `BUFLEN` characters, up to
the first null byte. -/
def get (z : Store) (p : Path) : Option ZNode :=
  (z p).map fun n => { n with data := cStr (n.data.take bufLen) }

/-- `none` is `ZNODEEXISTS`. -/
def create (z : Store) (p : Path) (data : List Char) : Option Store :=
  match z p with
  | none => some (update z p (some ⟨data, 0⟩))
  | some _ => none

/-- `none` is `ZNONODE` or `ZBADVERSION`. -/
def set (z : Store) (p : Path) (data : List Char) (version : Nat) : Option Store :=
  match z p with
  | none => none
  | some n =>
      if n.version = version then some (update z p (some ⟨data, n.version + 1⟩)) else none

def remove (z : Store) (p : Path) (version : Nat) : Option Store :=
  match z p with
  | none => none
  | some n => if n.version = version then some (update z p none) else none

end Store

/-- What becomes of a request: it is carried out and answered, it is carried out
and reported as failed, or it fails. -/
inductive Fate where
  | answered
  | unreported
  | failed
  deriving DecidableEq, Repr

/-- A write as the client sees it; `true` is `ZOK`. -/
def Store.attempt (z : Store) (write : Option Store) : Fate → Store × Bool
  | .answered => (write.getD z, write.isSome)
  | .unreported => (write.getD z, false)
  | .failed => (z, false)

theorem Store.create_eq_some {z z' : Store} {p : Path} {data : List Char}
    (h : z.create p data = some z') :
    z p = none ∧ z' = update z p (some ⟨data, 0⟩) := by
  unfold Store.create at h
  split at h
  · exact ⟨‹_›, (Option.some.inj h).symm⟩
  · cases h

theorem Store.set_eq_some {z z' : Store} {p : Path} {data : List Char} {version : Nat}
    (h : z.set p data version = some z') :
    ∃ n, z p = some n ∧ n.version = version ∧
      z' = update z p (some ⟨data, version + 1⟩) := by
  unfold Store.set at h
  split at h
  · cases h
  · rename_i n hn
    obtain ⟨hversion, heq⟩ := Option.ite_none_right_eq_some.mp h
    exact ⟨n, hn, hversion, by rw [← hversion]; exact (Option.some.inj heq).symm⟩

theorem Store.remove_eq_some {z z' : Store} {p : Path} {version : Nat}
    (h : z.remove p version = some z') :
    ∃ n, z p = some n ∧ n.version = version ∧ z' = update z p none := by
  unfold Store.remove at h
  split at h
  · cases h
  · rename_i n hn
    obtain ⟨hversion, heq⟩ := Option.ite_none_right_eq_some.mp h
    exact ⟨n, hn, hversion, (Option.some.inj heq).symm⟩

theorem Store.attempt_cases (z : Store) (write : Option Store) (fate : Fate) :
    z.attempt write fate = (z, false) ∨
      ∃ z' ok, write = some z' ∧ fate ≠ .failed ∧ z.attempt write fate = (z', ok) := by
  cases write with
  | none => left; cases fate <;> rfl
  | some z' =>
      cases fate with
      | answered => exact .inr ⟨z', true, rfl, by decide, rfl⟩
      | unreported => exact .inr ⟨z', false, rfl, by decide, rfl⟩
      | failed => exact .inl rfl

theorem Store.get_of_short {z : Store} {p : Path} {n : ZNode} (h : z p = some n)
    (hshort : n.data.length ≤ bufLen) (hnull : ∀ c ∈ n.data, c ≠ Char.ofNat 0) :
    z.get p = some n := by
  have htake : n.data.take bufLen = n.data := List.take_of_length_le hshort
  have hcstr : cStr n.data = n.data :=
    List.takeWhile_eq_self_iff.mpr fun c hc => by simpa using hnull c hc
  simp [Store.get, h, htake, hcstr]

end RdmaMigration.Coordinator
