import RdmaMigration.Lib.MachineInt

/-! # The page table of a segment

`Pages` of paging.hpp and paging.tpp. Every segment record carries one: the
geometry of the segment and one atomic state per page. The two overloads that
take a page number and the two that take an address are kept apart, because they
do not compute the same thing for every geometry.
-/

namespace RdmaMigration.Paging

open Lib

inductive PageState where
  | remote
  | inFlight
  | «local»
  deriving DecidableEq, Repr

structure Pages where
  startAddress : Nat
  endAddress : Nat
  memorySize : Nat
  pageSize : Nat
  numPages : Int
  pages : List PageState
  localPages : Int
  deriving DecidableEq, Repr

/-- The number of pages the constructor computes, before it is narrowed. -/
def pageCount (memorySize pageSize : Nat) : Nat :=
  if memorySize % pageSize = 0 then memorySize / pageSize else memorySize / pageSize + 1

/-- The constructor. The page count is narrowed to `int` before the vector is
built from it: a negative count is a `length_error`, and a zero page size is a
division by zero. -/
def Pages.construct (startAddress memorySize pageSize : Nat) : Option Pages :=
  let numPages := toInt32 (pageCount memorySize pageSize)
  if pageSize = 0 ∨ numPages < 0 then none
  else some
    { startAddress := startAddress
      endAddress := wrap64 (startAddress + memorySize)
      memorySize := memorySize
      pageSize := pageSize
      numPages := numPages
      pages := List.replicate numPages.toNat .remote
      localPages := 0 }

namespace Pages

/-- `getPageAddress(int page_id)`. -/
def getPageAddressOfId (p : Pages) (pageId : Int) : Nat :=
  wrap64 (p.startAddress + wrap64 (p.pageSize * toSizeT pageId))

/-- `getPageAddress(void* address)`: the page size is used as a bit mask. -/
def getPageAddress (p : Pages) (address : Nat) : Nat :=
  address &&& not64 (sub64 p.pageSize 1)

/-- `getPageSize(int page_id)`. -/
def getPageSizeOfId (p : Pages) (pageId : Int) : Nat :=
  if pageId < p.numPages - 1 then p.pageSize
  else if p.memorySize % p.pageSize = 0 then p.pageSize
  else sub64 p.memorySize (wrap64 (p.pageSize * toSizeT (p.numPages - 1)))

/-- `getPageSize(void* address)`. -/
def getPageSizeAt (p : Pages) (address : Nat) : Nat :=
  let endOfPage := wrap64 (address + p.pageSize)
  if p.endAddress < endOfPage then sub64 endOfPage p.endAddress else p.pageSize

/-- The page number that the overloads taking an address compute, as an `int`. -/
def pageId (p : Pages) (address : Nat) : Int :=
  toInt32 (sub64 address p.startAddress / p.pageSize)

/-- `pages.at(page_id)`; `none` is the `out_of_range` exception. -/
def at? (p : Pages) (pageId : Int) : Option PageState := p.pages[toSizeT pageId]?

def store (p : Pages) (pageId : Int) (state : PageState) : Pages :=
  { p with pages := p.pages.set (toSizeT pageId) state }

/-- `compare_exchange_weak` on the state of one page: it may fail spuriously. -/
def compareExchangeWeak (p : Pages) (pageId : Int) (old new : PageState) (spurious : Bool) :
    Option (Bool × Pages) :=
  (p.at? pageId).map fun current =>
    if current = old ∧ spurious = false then (true, p.store pageId new) else (false, p)

@[simp] theorem store_pageId (p : Pages) (i : Int) (s : PageState) (a : Nat) :
    (p.store i s).pageId a = p.pageId a := rfl

theorem at?_store_self {p : Pages} {i : Int} {old : PageState} (h : p.at? i = some old)
    (s : PageState) : (p.store i s).at? i = some s := by
  have hi : toSizeT i < p.pages.length := (List.getElem?_eq_some_iff.mp h).1
  simp [at?, store, hi]

theorem at?_store_ne {p : Pages} {i j : Int} (h : toSizeT i ≠ toSizeT j) (s : PageState) :
    (p.store i s).at? j = p.at? j := by
  simp [at?, store, List.getElem?_set_ne h]

theorem compareExchangeWeak_spec {p p' : Pages} {i : Int} {old new : PageState}
    {spurious won : Bool} (h : p.compareExchangeWeak i old new spurious = some (won, p')) :
    (won = true ∧ p.at? i = some old ∧ p' = p.store i new) ∨ (won = false ∧ p' = p) := by
  unfold compareExchangeWeak at h
  obtain ⟨current, hcurrent, hres⟩ := Option.map_eq_some_iff.mp h
  split at hres
  · rename_i hwin
    cases hres
    exact .inl ⟨rfl, by rw [hcurrent, hwin.1], rfl⟩
  · cases hres
    exact .inr ⟨rfl, rfl⟩

end Pages

/-! ## Segments of whole operating-system pages

The geometry of every segment that `accept` creates with the default page size
on a page-aligned range of whole pages. -/

def defaultPageSize : Nat := 4096

structure Aligned (start size : Nat) : Prop where
  start_dvd : defaultPageSize ∣ start
  size_dvd : defaultPageSize ∣ size
  bound : start + size < 2 ^ 64

/-- The geometry fields of a table built for an aligned segment; no operation on
page states changes them. The table may be shorter than the segment, since its
length was narrowed to `int`. -/
structure Geometry (start size : Nat) (p : Pages) : Prop where
  startAddress : p.startAddress = start
  endAddress : p.endAddress = start + size
  memorySize : p.memorySize = size
  pageSize : p.pageSize = defaultPageSize
  fits : defaultPageSize * p.pages.length ≤ size

theorem toInt32_toNat_le (n : Nat) : (toInt32 n).toNat ≤ n := by
  unfold toInt32
  rw [Int.bmod_def]
  omega

theorem pageCount_aligned {start size : Nat} (ha : Aligned start size) :
    defaultPageSize * pageCount size defaultPageSize = size := by
  unfold pageCount
  rw [if_pos (Nat.mod_eq_zero_of_dvd ha.size_dvd)]
  exact Nat.mul_div_cancel' ha.size_dvd

theorem construct_geometry {start size : Nat} {p : Pages} (ha : Aligned start size)
    (h : Pages.construct start size defaultPageSize = some p) :
    Geometry start size p ∧ ∀ s ∈ p.pages, s = .remote := by
  simp only [Pages.construct, Option.ite_none_left_eq_some, Option.some.injEq] at h
  obtain ⟨_, rfl⟩ := h
  refine ⟨⟨rfl, wrap64_of_lt ha.bound, rfl, rfl, ?_⟩, ?_⟩
  · have hcount := Nat.mul_le_mul_left defaultPageSize
      (toInt32_toNat_le (pageCount size defaultPageSize))
    rw [pageCount_aligned ha] at hcount
    simpa only [List.length_replicate] using hcount
  · intro s hs
    dsimp only at hs
    exact List.eq_of_mem_replicate hs

theorem Geometry.store {start size : Nat} {p : Pages} (h : Geometry start size p)
    (i : Int) (s : PageState) : Geometry start size (p.store i s) :=
  ⟨h.startAddress, h.endAddress, h.memorySize, h.pageSize, by
    simpa [Pages.store] using h.fits⟩

def IsPage (start size address : Nat) : Prop :=
  ∃ k, address = start + defaultPageSize * k ∧ defaultPageSize * k < size

theorem IsPage.end_le {start size address : Nat} (ha : Aligned start size)
    (h : IsPage start size address) : address + defaultPageSize ≤ start + size := by
  obtain ⟨k, rfl, hk⟩ := h
  obtain ⟨m, hm⟩ := ha.size_dvd
  rw [hm] at hk ⊢
  have hkm : k < m := Nat.lt_of_mul_lt_mul_left hk
  have : defaultPageSize * (k + 1) ≤ defaultPageSize * m := Nat.mul_le_mul_left _ hkm
  rw [Nat.mul_add] at this
  omega

/-- Two pages of one segment are equal or do not meet. -/
theorem IsPage.eq_of_mem {start size p q a : Nat} (hp : IsPage start size p)
    (hq : IsPage start size q) (ha : p ≤ a ∧ a < p + defaultPageSize)
    (hb : q ≤ a ∧ a < q + defaultPageSize) : p = q := by
  obtain ⟨j, rfl, _⟩ := hp
  obtain ⟨k, rfl, _⟩ := hq
  unfold defaultPageSize at *
  omega

/-- A fault inside the segment resolves to one of its pages, of full size. -/
theorem getPageAddress_isPage {start size a : Nat} {p : Pages} (hal : Aligned start size)
    (hg : Geometry start size p) (ha : start ≤ a) (hb : a < start + size) :
    IsPage start size (p.getPageAddress a) ∧
      p.getPageSizeAt (p.getPageAddress a) = defaultPageSize ∧
      p.getPageAddress a ≤ a ∧ a < p.getPageAddress a + defaultPageSize := by
  obtain ⟨s, hs⟩ := hal.start_dvd
  have hlt : a < 2 ^ 64 := Nat.lt_trans hb hal.bound
  have haddr : p.getPageAddress a = 2 ^ 12 * (a / 2 ^ 12) := by
    have hmask : sub64 p.pageSize 1 = 2 ^ 12 - 1 := by rw [hg.pageSize]; decide
    unfold Pages.getPageAddress
    rw [hmask]
    exact land_not64_low a 12 hlt (by decide)
  have hpage : IsPage start size (p.getPageAddress a) := by
    refine ⟨a / 4096 - s, ?_, ?_⟩
    · rw [haddr]; unfold defaultPageSize at *; omega
    · unfold defaultPageSize at *; omega
  have hend := hpage.end_le hal
  refine ⟨hpage, ?_, ?_, ?_⟩
  · have hbound := hal.bound
    unfold Pages.getPageSizeAt
    dsimp only
    rw [hg.pageSize, hg.endAddress, wrap64_of_lt (by omega), if_neg (by omega)]
  · rw [haddr]; omega
  · rw [haddr]; unfold defaultPageSize; omega

/-- The page a pull loop addresses by number is a page of the segment, of full size. -/
theorem getPageAddressOfId_isPage {start size id : Nat} {p : Pages} (hal : Aligned start size)
    (hg : Geometry start size p) (hid : id < p.pages.length) :
    IsPage start size (p.getPageAddressOfId id) ∧
      p.getPageSizeOfId id = defaultPageSize := by
  have hbound := hal.bound
  have hfits := hg.fits
  have hlt : defaultPageSize * id < size :=
    Nat.lt_of_lt_of_le (Nat.mul_lt_mul_of_pos_left hid (by decide)) hfits
  have hsmall : id < 2 ^ 64 := by unfold defaultPageSize at hlt; omega
  constructor
  · refine ⟨id, ?_, hlt⟩
    have hoffset : wrap64 (defaultPageSize * id) = defaultPageSize * id :=
      wrap64_of_lt (by omega)
    unfold Pages.getPageAddressOfId
    rw [hg.startAddress, hg.pageSize, toSizeT_natCast hsmall, hoffset, wrap64_of_lt (by omega)]
  · unfold Pages.getPageSizeOfId
    split
    · exact hg.pageSize
    · rw [hg.memorySize, hg.pageSize, if_pos (Nat.mod_eq_zero_of_dvd hal.size_dvd)]

end RdmaMigration.Paging
