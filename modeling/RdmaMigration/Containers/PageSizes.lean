import RdmaMigration.Containers.Base
import RdmaMigration.Lib.Run
import RdmaMigration.Manager.Lookup
import RdmaMigration.Paging.Table

/-! # Page sizes set through the manager and through containers

`SetPageSize` of the manager finds the record by its address, that of a container takes
the one it polled last. Both end in `setPageSize` on the record's table, next to the
operations on page states that any pull makes.
-/

namespace RdmaMigration.Containers

open Lib Manager Paging

def ContainerBase.setPageSize (c : ContainerBase) (s : Server) (size : Nat) : Server :=
  match c.rdmaMemory with
  | none => s
  | some p => s.modify p fun memory => { memory with pages := memory.pages.setPageSize size }

inductive TableCall where
  | pages (record : Nat) (op : TableOp)
  | manager (address pageSize : Nat)
  | container (c : ContainerBase) (pageSize : Nat)
  deriving DecidableEq, Repr

namespace TableCall

def step (s : Server) : TableCall → Option Server
  | pages record op =>
      some (s.modify record fun memory => { memory with pages := memory.pages.perform op })
  | manager address pageSize => (s.setPageSize address pageSize).toOption
  | container c pageSize => some (c.setPageSize s pageSize)

def sets (s : Server) (q : Nat) : TableCall → Option Nat
  | pages record op => if record = q then op.sets else none
  | manager address pageSize => if s.memoryMap.lookup address = some q then some pageSize else none
  | container c pageSize => if c.rdmaMemory = some q then some pageSize else none

def unitAfter (s : Server) (q : Nat) (pageSize : Nat) (calls : List TableCall) : Nat :=
  calls.foldl (fun unit call => (call.sets s q).getD unit) pageSize

theorem step_cases {s s' : Server} {call : TableCall} (h : step s call = some s') :
    s' = s ∧ (∀ q, call.sets s q = none) ∨
    ∃ p op, s' = s.modify p (fun memory => { memory with pages := memory.pages.perform op }) ∧
      ∀ q, call.sets s q = if p = q then op.sets else none := by
  cases call with
  | pages record op =>
      cases h
      exact .inr ⟨record, op, rfl, fun q => rfl⟩
  | manager address pageSize =>
      obtain ⟨p, hp, rfl⟩ := Server.setPageSize_eq_ok (toOption_eq_some h)
      refine .inr ⟨p, .setPageSize pageSize, rfl, fun q => ?_⟩
      simp only [sets, hp, Option.some.injEq]
      rfl
  | container c pageSize =>
      cases h
      unfold ContainerBase.setPageSize
      cases hrecord : c.rdmaMemory with
      | none => exact .inl ⟨rfl, fun q => by simp [sets, hrecord]⟩
      | some p =>
          refine .inr ⟨p, .setPageSize pageSize, rfl, fun q => ?_⟩
          simp only [sets, hrecord, Option.some.injEq]
          rfl

theorem step_shape {s s' : Server} {call : TableCall} {q start size count unit : Nat}
    {r : RDMAMemory} (h : step s call = some s') (hr : s.heap[q]? = some r)
    (hs : Shape start size count unit r.pages) :
    s'.memoryMap = s.memoryMap ∧ ∃ r', s'.heap[q]? = some r' ∧
      Shape start size count ((call.sets s q).getD unit) r'.pages := by
  rcases step_cases h with ⟨rfl, hsets⟩ | ⟨p, op, rfl, hsets⟩
  · exact ⟨rfl, r, hr, by rw [hsets]; exact hs⟩
  · refine ⟨rfl, ?_⟩
    rw [hsets]
    by_cases hpq : p = q
    · subst hpq
      refine ⟨{ r with pages := r.pages.perform op }, ?_, ?_⟩
      · show (s.heap.modify p _)[p]? = _
        rw [List.getElem?_modify_eq, hr]
        rfl
      · rw [if_pos rfl]
        exact hs.perform op
    · refine ⟨r, ?_, ?_⟩
      · show (s.heap.modify p _)[q]? = _
        rw [List.getElem?_modify, hr]
        simp [hpq]
      · rw [if_neg hpq]
        exact hs

theorem sets_congr {s s' : Server} (h : s'.memoryMap = s.memoryMap) (q : Nat) (call : TableCall) :
    call.sets s' q = call.sets s q := by
  cases call with
  | pages record op => rfl
  | manager address pageSize => simp only [sets, h]
  | container c pageSize => rfl

theorem run_shape {s s' : Server} {calls : List TableCall} {q start size count unit : Nat}
    {r : RDMAMemory} (h : run step s calls = some s') (hr : s.heap[q]? = some r)
    (hs : Shape start size count unit r.pages) :
    ∃ r', s'.heap[q]? = some r' ∧ Shape start size count (unitAfter s q unit calls) r'.pages := by
  induction calls generalizing s r unit with
  | nil =>
      cases h
      exact ⟨r, hr, hs⟩
  | cons call calls ih =>
      obtain ⟨s₁, hstep, hrest⟩ := run_cons_some h
      obtain ⟨hmap, r₁, hr₁, hs₁⟩ := step_shape hstep hr hs
      obtain ⟨r', hr', hs'⟩ := ih hrest hr₁ hs₁
      have hunit : unitAfter s₁ q ((call.sets s q).getD unit) calls =
          unitAfter s q unit (call :: calls) := by
        simp only [unitAfter, List.foldl_cons, sets_congr hmap]
      rw [hunit] at hs'
      exact ⟨r', hr', hs'⟩

theorem unitAfter_mem {s : Server} {q unit : Nat} {calls : List TableCall} {P : Nat → Prop}
    (hunit : P unit) (hcalls : ∀ call ∈ calls, ∀ u, call.sets s q = some u → P u) :
    P (unitAfter s q unit calls) := by
  induction calls generalizing unit with
  | nil => exact hunit
  | cons call calls ih =>
      refine ih ?_ fun c hc => hcalls c (List.mem_cons_of_mem _ hc)
      show P ((call.sets s q).getD unit)
      cases hset : call.sets s q with
      | none => exact hunit
      | some u => exact hcalls call List.mem_cons_self u hset

end TableCall

theorem tableLength_lt (size pageSize : Nat) : tableLength size pageSize < 2 ^ 31 := by
  have hlt := toInt32_lt (pageCount size pageSize)
  unfold tableLength
  omega

/-- Any record whose table was constructed for a range in user space, and any sequence of
calls with positive page sizes. -/
theorem page_table_consistent {s s' : Server} {q start size pageSize : Nat} {r : RDMAMemory}
    {calls : List TableCall} (hr : s.heap[q]? = some r)
    (hp : Pages.construct start size pageSize = some r.pages) (hpage : pageSize < 2 ^ 64)
    (hend : start + size ≤ 2 ^ 47)
    (hunits : ∀ call ∈ calls, ∀ u, call.sets s q = some u → 0 < u ∧ u < 2 ^ 64)
    (hrun : run TableCall.step s calls = some s') :
    ∃ r', s'.heap[q]? = some r' ∧
      (r'.pages.Consistent ↔ FitsTable start size (tableLength size pageSize)
        (TableCall.unitAfter s q pageSize calls)) := by
  obtain ⟨r', hr', hs⟩ := TableCall.run_shape hrun hr (construct_shape hp)
  have hzero : pageSize ≠ 0 := (construct_eq_some hp).1
  have hunit := TableCall.unitAfter_mem (P := fun u => 0 < u ∧ u < 2 ^ 64)
    ⟨Nat.pos_of_ne_zero hzero, hpage⟩ hunits
  exact ⟨r', hr', hs.consistent_iff (tableLength_lt size pageSize) hunit.1 hunit.2 hend⟩

def holder (size : Nat) : Server := ((Server.construct 2 0).allocate size none (some (2 ^ 44))).1

/-- Two and a half pages, divided into pages of 4000 bytes after that. -/
theorem page_table_consistent_refit : ∃ s' r',
    run TableCall.step (holder 10240)
      [.manager (2 ^ 44) 4000, .pages 0 (.setPageState 2 .local)] = some s' ∧
    s'.heap[0]? = some r' ∧ r'.pages.Consistent := by
  obtain ⟨r, hr, hp⟩ : ∃ r, (holder 10240).heap[0]? = some r ∧
      Pages.construct (2 ^ 44) 10240 4096 = some r.pages := ⟨_, rfl, rfl⟩
  obtain ⟨s', hrun⟩ : ∃ s', run TableCall.step (holder 10240)
      [.manager (2 ^ 44) 4000, .pages 0 (.setPageState 2 .local)] = some s' := ⟨_, rfl⟩
  obtain ⟨r', hr', hiff⟩ := page_table_consistent hr hp (by decide) (by decide) (by decide) hrun
  exact ⟨s', r', hrun, hr', hiff.mpr ⟨by decide, by decide, by decide⟩⟩

/-- Four pages. With pages twice as large the loop over the table goes on behind the
segment; with pages half as large the second half of the segment has no entries. -/
theorem page_table_left_behind :
    (∃ s' r', run TableCall.step (holder 16384) [.manager (2 ^ 44) 8192] = some s' ∧
      s'.heap[0]? = some r' ∧ r'.pages.pages.length = 4 ∧
      r'.pages.getPageAddressOfId 2 = 2 ^ 44 + 16384 ∧ r'.pages.getPageSizeOfId 2 = 8192) ∧
    ∃ s' r', run TableCall.step (holder 16384) [.container ⟨2 ^ 44, 16384, some 0⟩ 2048] = some s' ∧
      s'.heap[0]? = some r' ∧ r'.pages.pages.length = 4 ∧
      r'.pages.at? (r'.pages.pageId (2 ^ 44 + 8192)) = none :=
  ⟨⟨_, _, rfl, rfl, rfl, rfl, rfl⟩, _, _, rfl, rfl, rfl, rfl⟩

end RdmaMigration.Containers
