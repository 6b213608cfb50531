import RdmaMigration.Paging.Geometry

/-! # The page table under later page sizes

The constructor derives the number of pages and the length of the table from the page
size. `setPageSize` replaces the page size alone, and everything that is computed from a
page number or an address after that uses the new one.
-/

namespace RdmaMigration.Paging

open Lib

/-! ## The operations -/

namespace Pages

def countLocal (p : Pages) (state : PageState) : Pages :=
  if state = .local then { p with localPages := p.localPages + 1 } else p

def setPageState (p : Pages) (pageId : Int) (state : PageState) : Option Pages :=
  (p.at? pageId).map fun _ => (p.store pageId state).countLocal state

def setPageStateAt (p : Pages) (address : Nat) (state : PageState) : Option Pages :=
  p.setPageState (p.pageId address) state

def setPageStateCAS (p : Pages) (address : Nat) (oldState newState : PageState)
    (spurious : Bool) : Option (Bool × Pages) :=
  (p.compareExchangeWeak (p.pageId address) oldState newState spurious).map fun r =>
    (r.1, if r.1 then r.2.countLocal newState else r.2)

end Pages

inductive TableOp where
  | setPageState (pageId : Int) (state : PageState)
  | setPageStateAt (address : Nat) (state : PageState)
  | setPageStateCAS (address : Nat) (oldState newState : PageState) (spurious : Bool)
  | setPageSize (pageSize : Nat)
  deriving DecidableEq, Repr

/-- An exception leaves the table as it was. -/
def Pages.perform (p : Pages) : TableOp → Pages
  | .setPageState pageId state => (p.setPageState pageId state).getD p
  | .setPageStateAt address state => (p.setPageStateAt address state).getD p
  | .setPageStateCAS address oldState newState spurious =>
      ((p.setPageStateCAS address oldState newState spurious).map Prod.snd).getD p
  | .setPageSize pageSize => p.setPageSize pageSize

def TableOp.sets : TableOp → Option Nat
  | .setPageSize pageSize => some pageSize
  | _ => none

/-- What only the constructor writes, and the page size. -/
structure Shape (start size count unit : Nat) (p : Pages) : Prop where
  startAddress : p.startAddress = start
  endAddress : p.endAddress = wrap64 (start + size)
  memorySize : p.memorySize = size
  numPages : p.numPages = count
  length : p.pages.length = count
  pageSize : p.pageSize = unit

/-- The number of pages of a table that was built with this page size. -/
def tableLength (size pageSize : Nat) : Nat := (toInt32 (pageCount size pageSize)).toNat

section Shape

variable {start size count unit : Nat} {p : Pages}

theorem construct_shape (h : Pages.construct start size unit = some p) :
    Shape start size (tableLength size unit) unit p := by
  obtain ⟨-, hstart, hend, hmemory, hpage, hnum, hpages, hnonneg, -⟩ := construct_eq_some h
  rw [hnum] at hpages hnonneg
  refine ⟨hstart, hend, hmemory, ?_, ?_, hpage⟩
  · rw [hnum, tableLength, Int.toNat_of_nonneg hnonneg]
  · rw [hpages, List.length_replicate, tableLength]

theorem Shape.countLocal (hs : Shape start size count unit p) (state : PageState) :
    Shape start size count unit (p.countLocal state) := by
  unfold Pages.countLocal
  split
  · exact ⟨hs.startAddress, hs.endAddress, hs.memorySize, hs.numPages, hs.length, hs.pageSize⟩
  · exact hs

theorem Shape.store (hs : Shape start size count unit p) (pageId : Int) (state : PageState) :
    Shape start size count unit (p.store pageId state) :=
  ⟨hs.startAddress, hs.endAddress, hs.memorySize, hs.numPages,
    by rw [Pages.store, List.length_set, hs.length], hs.pageSize⟩

theorem Shape.setPageState (hs : Shape start size count unit p) (pageId : Int) (state : PageState) :
    Shape start size count unit ((p.setPageState pageId state).getD p) := by
  unfold Pages.setPageState
  cases p.at? pageId with
  | none => exact hs
  | some old => exact (hs.store pageId state).countLocal state

theorem Shape.perform (hs : Shape start size count unit p) (op : TableOp) :
    Shape start size count (op.sets.getD unit) (p.perform op) := by
  cases op with
  | setPageState pageId state => exact hs.setPageState pageId state
  | setPageStateAt address state => exact hs.setPageState (p.pageId address) state
  | setPageStateCAS address oldState newState spurious =>
      show Shape start size count unit
        (((p.setPageStateCAS address oldState newState spurious).map Prod.snd).getD p)
      unfold Pages.setPageStateCAS
      cases hcas : p.compareExchangeWeak (p.pageId address) oldState newState spurious with
      | none => exact hs
      | some r =>
          obtain ⟨won, p'⟩ := r
          rcases Pages.compareExchangeWeak_spec hcas with ⟨rfl, -, rfl⟩ | ⟨rfl, rfl⟩
          · exact (hs.store _ _).countLocal newState
          · exact hs
  | setPageSize pageSize =>
      exact ⟨hs.startAddress, hs.endAddress, hs.memorySize, hs.numPages, hs.length, rfl⟩

end Shape

/-! ## What the pull loops compute -/

namespace Pages

/-- `segment_pull` in round `k` of `PullPagesSync` and `PullPagesAsync`, called for the
whole segment. -/
def segmentPull (p : Pages) : Nat → Nat
  | 0 => p.startAddress
  | k + 1 => wrap64 (segmentPull p k + p.pageSize)

def Inside (p : Pages) (address size : Nat) : Prop :=
  p.startAddress ≤ address ∧ address + size ≤ p.startAddress + p.memorySize

instance (p : Pages) (address size : Nat) : Decidable (p.Inside address size) :=
  inferInstanceAs (Decidable (_ ∧ _))

/-- The redundant fields agree. Then every address of the segment has an entry, and the
loops over the table and over the addresses stay inside the segment. The loops over the
addresses first call `getPageState(int)` with the address, which throws when that is no
index of the table; `byAddress` says what they ask for if it does not. -/
structure Consistent (p : Pages) : Prop where
  numPages : p.numPages = p.pages.length
  ceiling : p.pages.length = (p.memorySize + p.pageSize - 1) / p.pageSize
  entry : ∀ a, p.startAddress ≤ a → a < p.startAddress + p.memorySize →
    (p.at? (p.pageId a)).isSome
  byId : ∀ id : Nat, id < p.pages.length →
    p.Inside (p.getPageAddressOfId id) (p.getPageSizeOfId id)
  byAddress : ∀ k, (∀ j ≤ k, p.segmentPull j < p.endAddress) →
    p.Inside (p.getPageAddress (p.segmentPull k)) (p.getPageSizeAt (p.segmentPull k))

end Pages

/-- The page size `unit` divides the segment into as many pages as the table has. The
mask clears no bit of the start, and if the last page is short, the bytes behind the end
of the segment, which the loops over addresses take for its size, are no more than those
from its masked address on. -/
structure FitsTable (start size count unit : Nat) : Prop where
  pages : count = pageCount size unit
  unmasked : 0 < size → start &&& (unit - 1) = 0
  last : size % unit = 0 ∨
    unit ≤ 2 * (size % unit) + ((start + unit * (size / unit)) &&& (unit - 1))

theorem pageCount_eq_ceiling (size : Nat) {unit : Nat} (hunit : 0 < unit) :
    pageCount size unit = (size + unit - 1) / unit := by
  have hsplit := size_eq_pages size unit
  have hpos := lastSize_pos size hunit
  have hle := lastSize_le size hunit
  refine (Nat.div_eq_of_lt_le ?_ ?_).symm
  · rw [Nat.mul_comm]
    omega
  · rw [Nat.mul_comm, Nat.mul_succ]
    omega

theorem getPageAddress_add {p : Pages} {a : Nat} (ha : a < 2 ^ 64) (hpos : 0 < p.pageSize)
    (hunit : p.pageSize < 2 ^ 64) :
    p.getPageAddress a + (a &&& (p.pageSize - 1)) = a := by
  rw [Pages.getPageAddress, sub64_of_le hpos hunit]
  exact land_not64_add ha (by omega)

theorem FitsTable.unit_le {start size count unit : Nat} (hf : FitsTable start size count unit)
    (hsize : 0 < size) : unit ≤ 2 * size := by
  have hdiv := Nat.div_add_mod size unit
  rcases Nat.eq_zero_or_pos (size / unit) with hzero | hpos
  · -- one short page
    have hstart := hf.unmasked hsize
    have hlast := hf.last
    rw [hzero, Nat.mul_zero] at hdiv hlast
    rw [Nat.add_zero, hstart] at hlast
    omega
  · have hle : unit * 1 ≤ unit * (size / unit) := Nat.mul_le_mul_left _ hpos
    omega

section Consistent

variable {start size count unit : Nat} {p : Pages}

theorem Shape.end_eq (hs : Shape start size count unit p) (hend : start + size ≤ 2 ^ 47) :
    p.endAddress = start + size := by
  rw [hs.endAddress, wrap64_of_lt (by omega)]

theorem Shape.segmentPull_eq (hs : Shape start size count unit p) {k : Nat}
    (hk : start + unit * k < 2 ^ 64) : p.segmentPull k = start + unit * k := by
  induction k with
  | zero => exact hs.startAddress
  | succ k ih =>
      rw [Nat.mul_succ] at hk ⊢
      rw [Pages.segmentPull, ih (by omega), hs.pageSize, wrap64_of_lt (by omega)]
      omega

/-- The loop leaves the segment before the address could wrap. -/
theorem Shape.segmentPull_lt (hs : Shape start size count unit p) (hend : start + size ≤ 2 ^ 47)
    (hunit : unit ≤ 2 * size) {k : Nat} (hrounds : ∀ j ≤ k, p.segmentPull j < p.endAddress) :
    p.segmentPull k = start + unit * k ∧ unit * k < size := by
  induction k with
  | zero =>
      have hlt := hrounds 0 (Nat.le_refl _)
      rw [hs.end_eq hend, hs.segmentPull_eq (k := 0) (by omega)] at hlt
      exact ⟨hs.startAddress, by omega⟩
  | succ k ih =>
      obtain ⟨-, hlt⟩ := ih fun j hj => hrounds j (Nat.le_succ_of_le hj)
      have heq := hs.segmentPull_eq (k := k + 1) (by rw [Nat.mul_succ]; omega)
      have hround := hrounds (k + 1) (Nat.le_refl _)
      rw [heq, hs.end_eq hend] at hround
      exact ⟨heq, by omega⟩

theorem Shape.pull_inside (hs : Shape start size count unit p) (hend : start + size ≤ 2 ^ 47)
    (hpos : 0 < unit) (hlt : unit < 2 ^ 64) (hf : FitsTable start size count unit) {k : Nat}
    (hk : unit * k < size) :
    p.Inside (p.getPageAddress (start + unit * k)) (p.getPageSizeAt (start + unit * k)) := by
  have hunit := hf.unit_le (by omega)
  have hsum := getPageAddress_add (p := p) (a := start + unit * k) (by omega)
    (by rw [hs.pageSize]; exact hpos) (by rw [hs.pageSize]; exact hlt)
  rw [hs.pageSize] at hsum
  rw [Pages.Inside, hs.startAddress, hs.memorySize]
  constructor
  · cases k with
    | zero =>
        have hstart := hf.unmasked (by omega)
        rw [Nat.mul_zero, Nat.add_zero] at hsum ⊢
        omega
    | succ k =>
        have hmask : (start + unit * (k + 1)) &&& (unit - 1) ≤ unit - 1 := Nat.and_le_right
        have hmul : unit * (k + 1) = unit * k + unit := Nat.mul_succ unit k
        omega
  · rw [Pages.getPageSizeAt, hs.pageSize, hs.end_eq hend, wrap64_of_lt (by omega)]
    split
    next hover =>
      -- the last page, and it is short
      have hlast := hf.last
      have hquot : size / unit = k := Nat.div_eq_of_lt_le (by rw [Nat.mul_comm]; omega)
        (by rw [Nat.mul_comm, Nat.mul_succ]; omega)
      have hdiv := Nat.div_add_mod size unit
      rw [hquot] at hlast hdiv
      rw [sub64_of_le (by omega) (by omega)]
      omega
    next => omega

theorem Shape.layout (hs : Shape start size count unit p) (hcount : count < 2 ^ 31)
    (hpos : 0 < unit) (hend : start + size ≤ 2 ^ 47) (hf : FitsTable start size count unit)
    (hsize : 0 < size) : Layout start size unit p := by
  have hpages := hf.pages
  have hunit := hf.unit_le hsize
  have hsplit := size_eq_pages size unit
  exact ⟨hs.startAddress, hs.end_eq hend, hs.memorySize, hs.pageSize, by rw [hs.numPages, hpages],
    hpos, hsize, by omega, by omega⟩

theorem Shape.entry (hs : Shape start size count unit p) (hcount : count < 2 ^ 31)
    (hl : Layout start size unit p) (hpages : count = pageCount size unit) {a : Nat}
    (hlo : start ≤ a) (hhi : a < start + size) : (p.at? (p.pageId a)).isSome := by
  have hindex := hl.index_lt hlo hhi
  have hlength := hs.length
  have hspace := hl.size_le_space
  rw [Pages.pageId, hs.startAddress, hs.pageSize, sub64_of_le hlo (by omega),
    toInt32_of_lt (by omega), Pages.at?, toSizeT_natCast (by omega),
    List.getElem?_eq_getElem (by omega)]
  rfl

theorem Layout.page_inside (hl : Layout start size unit p) {id : Nat}
    (hid : id < pageCount size unit) :
    p.Inside (p.getPageAddressOfId id) (p.getPageSizeOfId id) := by
  rw [Pages.Inside, hl.startAddress, hl.memorySize, hl.indexed.getPageAddressOfId_eq hid]
  refine ⟨Nat.le_add_right _ _, ?_⟩
  rcases Nat.lt_or_eq_of_le (Nat.succ_le_of_lt hid) with hinner | hlast
  · have hin := end_of_inner hl.unit_pos hinner
    rw [hl.indexed.getPageSizeOfId_inner hinner]
    omega
  · have hend := end_of_last hlast
    rw [hl.indexed.getPageSizeOfId_last hlast]
    omega

theorem Shape.consistent_of_fits (hs : Shape start size count unit p) (hcount : count < 2 ^ 31)
    (hpos : 0 < unit) (hlt : unit < 2 ^ 64) (hend : start + size ≤ 2 ^ 47)
    (hf : FitsTable start size count unit) : p.Consistent := by
  have hpages := hf.pages
  constructor
  · rw [hs.numPages, hs.length]
  · rw [hs.length, hs.memorySize, hs.pageSize, hpages, pageCount_eq_ceiling size hpos]
  · intro a hlo hhi
    rw [hs.startAddress] at hlo hhi
    rw [hs.memorySize] at hhi
    exact hs.entry hcount (hs.layout hcount hpos hend hf (by omega)) hpages hlo hhi
  · intro id hid
    rw [hs.length, hpages] at hid
    have hsize : 0 < size := Nat.pos_of_ne_zero fun hzero => by
      subst hzero
      simp [pageCount] at hid
    exact (hs.layout hcount hpos hend hf hsize).page_inside hid
  · intro k hrounds
    have hsize : start < start + size := by
      have hfirst := hrounds 0 (Nat.zero_le k)
      rwa [hs.end_eq hend, Pages.segmentPull, hs.startAddress] at hfirst
    obtain ⟨hround, hk⟩ := hs.segmentPull_lt hend (hf.unit_le (by omega)) hrounds
    rw [hround]
    exact hs.pull_inside hend hpos hlt hf hk

theorem Shape.unmasked_of_consistent (hs : Shape start size count unit p) (hpos : 0 < unit)
    (hlt : unit < 2 ^ 64) (hend : start + size ≤ 2 ^ 47) (hc : p.Consistent) (hsize : 0 < size) :
    start &&& (unit - 1) = 0 := by
  have hfirst := (hc.byAddress 0 fun j hj => by
    rw [Nat.le_zero.mp hj, hs.end_eq hend, Pages.segmentPull, hs.startAddress]
    omega).1
  rw [Pages.segmentPull, hs.startAddress] at hfirst
  have hsum := getPageAddress_add (p := p) (a := start) (by omega)
    (by rw [hs.pageSize]; exact hpos) (by rw [hs.pageSize]; exact hlt)
  rw [hs.pageSize] at hsum
  omega

theorem Shape.last_of_consistent (hs : Shape start size count unit p) (hpos : 0 < unit)
    (hlt : unit < 2 ^ 64) (hend : start + size ≤ 2 ^ 47) (hc : p.Consistent)
    (hshort : size % unit ≠ 0) :
    unit ≤ 2 * (size % unit) + ((start + unit * (size / unit)) &&& (unit - 1)) := by
  have hdiv := Nat.div_add_mod size unit
  have hround : ∀ j ≤ size / unit, p.segmentPull j = start + unit * j ∧ unit * j < size := by
    intro j hj
    have hmul : unit * j ≤ unit * (size / unit) := Nat.mul_le_mul_left _ hj
    exact ⟨hs.segmentPull_eq (by omega), by omega⟩
  have hlast := (hc.byAddress (size / unit) fun j hj => by
    have hj' := hround j hj
    rw [hs.end_eq hend]
    omega).2
  rw [(hround _ (Nat.le_refl _)).1, hs.startAddress, hs.memorySize] at hlast
  have hsum := getPageAddress_add (p := p) (a := start + unit * (size / unit)) (by omega)
    (by rw [hs.pageSize]; exact hpos) (by rw [hs.pageSize]; exact hlt)
  rw [hs.pageSize] at hsum
  rw [Pages.getPageSizeAt, hs.pageSize, hs.end_eq hend] at hlast
  split at hlast
  next hover =>
    by_cases hwrap : start + unit * (size / unit) + unit < 2 ^ 64
    · rw [wrap64_of_lt hwrap] at hlast hover
      rw [sub64_of_le (by omega) hwrap] at hlast
      omega
    · unfold wrap64 at hover
      omega
  next => omega

/-- A table in user space, after any operations. -/
theorem Shape.consistent_iff (hs : Shape start size count unit p) (hcount : count < 2 ^ 31)
    (hpos : 0 < unit) (hlt : unit < 2 ^ 64) (hend : start + size ≤ 2 ^ 47) :
    p.Consistent ↔ FitsTable start size count unit := by
  constructor
  · intro hc
    constructor
    · rw [← hs.length, hc.ceiling, hs.memorySize, hs.pageSize, pageCount_eq_ceiling size hpos]
    · exact hs.unmasked_of_consistent hpos hlt hend hc
    · by_cases hshort : size % unit = 0
      · exact .inl hshort
      · exact .inr (hs.last_of_consistent hpos hlt hend hc hshort)
  · exact hs.consistent_of_fits hcount hpos hlt hend

end Consistent

end RdmaMigration.Paging
