import RdmaMigration.Paging.Pages

/-! # Page addresses and page sizes, by index and by address

The fault handler and the range pulls find a page through the overloads that take
an address, the pull loops through those that take an index. The address form
masks absolute bits and takes the size of a short last page from the wrong side,
so the two forms agree only for some geometries. `SetPageSize` replaces the page
size of a segment without any test.
-/

namespace RdmaMigration.Paging

open Lib

namespace Pages

/-- `setPageSize`: neither `num_pages` nor the vector follows. -/
def setPageSize (p : Pages) (pageSize : Nat) : Pages := { p with pageSize := pageSize }

end Pages

theorem construct_eq_some {start size pageSize : Nat} {p : Pages}
    (h : Pages.construct start size pageSize = some p) :
    pageSize ≠ 0 ∧ p.startAddress = start ∧ p.endAddress = wrap64 (start + size) ∧
      p.memorySize = size ∧ p.pageSize = pageSize ∧
      p.numPages = toInt32 (pageCount size pageSize) ∧
      p.pages = List.replicate p.numPages.toNat .remote ∧ 0 ≤ p.numPages ∧ p.localPages = 0 := by
  simp only [Pages.construct, Option.ite_none_left_eq_some, Option.some.injEq] at h
  obtain ⟨hok, rfl⟩ := h
  refine ⟨fun h => hok (.inl h), ?_⟩
  dsimp only
  exact ⟨rfl, rfl, rfl, rfl, rfl, rfl, Int.not_lt.mp fun h => hok (.inr h), rfl⟩

/-! ## Powers of two -/

section PowerOfTwo

variable {p : Pages} {k : Nat}

theorem getPageAddress_pow (hk : k < 64) (hsize : p.pageSize = 2 ^ k) {a : Nat}
    (ha : a < 2 ^ 64) : p.getPageAddress a = 2 ^ k * (a / 2 ^ k) := by
  have hpos : 0 < 2 ^ k := Nat.two_pow_pos k
  have hlt : 2 ^ k < 2 ^ 64 := Nat.pow_lt_pow_right (by decide) hk
  have hmask : sub64 p.pageSize 1 = 2 ^ k - 1 := by
    rw [hsize]
    exact sub64_of_le hpos hlt
  rw [Pages.getPageAddress, hmask]
  exact land_not64_low a k ha (by omega)

theorem page_of_aligned {start d a : Nat} (hd : 0 < d) (hstart : d ∣ start) (ha : start ≤ a) :
    d * (a / d) = start + d * ((a - start) / d) := by
  obtain ⟨m, rfl⟩ := hstart
  obtain ⟨offset, rfl⟩ := Nat.exists_eq_add_of_le ha
  rw [Nat.add_sub_cancel_left, Nat.mul_add_div hd, Nat.mul_add]

theorem getPageAddress_aligned {start a : Nat} (hk : k < 64) (hsize : p.pageSize = 2 ^ k)
    (hstart : 2 ^ k ∣ start) (hlo : start ≤ a) (ha : a < 2 ^ 64) :
    p.getPageAddress a = start + 2 ^ k * ((a - start) / 2 ^ k) := by
  rw [getPageAddress_pow hk hsize ha, page_of_aligned (Nat.two_pow_pos k) hstart hlo]

end PowerOfTwo

/-! ## The size of a page -/

theorem pageCount_pos {size pageSize : Nat} (hpos : 0 < pageSize) (hsize : 0 < size) :
    0 < pageCount size pageSize := by
  unfold pageCount
  split
  next h =>
    exact Nat.div_pos (Nat.le_of_dvd hsize (Nat.dvd_of_mod_eq_zero h)) hpos
  next => exact Nat.succ_pos _

/-- The geometry of a segment whose pages all lie in the address space. -/
structure Layout (start size unit : Nat) (p : Pages) : Prop where
  startAddress : p.startAddress = start
  endAddress : p.endAddress = start + size
  memorySize : p.memorySize = size
  pageSize : p.pageSize = unit
  numPages : p.numPages = (pageCount size unit : Nat)
  unit_pos : 0 < unit
  size_pos : 0 < size
  few : pageCount size unit < 2 ^ 31
  space : start + unit * pageCount size unit < 2 ^ 64

def lastSize (size unit : Nat) : Nat := if size % unit = 0 then unit else size % unit

theorem lastSize_le (size : Nat) {unit : Nat} (hunit : 0 < unit) : lastSize size unit ≤ unit := by
  unfold lastSize
  split
  · exact Nat.le_refl _
  · exact Nat.le_of_lt (Nat.mod_lt _ hunit)

theorem lastSize_pos (size : Nat) {unit : Nat} (hunit : 0 < unit) : 0 < lastSize size unit := by
  unfold lastSize
  split
  next => exact hunit
  next h => exact Nat.pos_of_ne_zero h

theorem size_eq_pages (size unit : Nat) :
    unit * pageCount size unit + lastSize size unit = size + unit := by
  have hdiv := Nat.div_add_mod size unit
  unfold pageCount lastSize
  split
  next h =>
    rw [h] at hdiv
    omega
  next =>
    rw [Nat.mul_succ]
    omega

theorem end_of_last {size unit i : Nat} (hi : i + 1 = pageCount size unit) :
    unit * i + lastSize size unit = size := by
  have hsplit := size_eq_pages size unit
  rw [← hi, Nat.mul_succ] at hsplit
  omega

theorem end_of_inner {size unit i : Nat} (hunit : 0 < unit) (hi : i + 1 < pageCount size unit) :
    unit * i + unit < size := by
  have hsplit := size_eq_pages size unit
  have hlast := lastSize_pos size hunit
  have hmul : unit * (i + 2) ≤ unit * pageCount size unit := Nat.mul_le_mul_left _ hi
  rw [Nat.mul_add] at hmul
  omega

/-- The geometry of a segment that lies in the address space. Its last page, taken at full
size, may reach past the end of it. -/
structure Indexed (start size unit : Nat) (p : Pages) : Prop where
  startAddress : p.startAddress = start
  memorySize : p.memorySize = size
  pageSize : p.pageSize = unit
  numPages : p.numPages = (pageCount size unit : Nat)
  unit_pos : 0 < unit
  few : pageCount size unit < 2 ^ 31
  inside : start + size < 2 ^ 64

namespace Indexed

variable {start size unit : Nat} {p : Pages} (hx : Indexed start size unit p)

include hx

theorem offset_lt {i : Nat} (hi : i < pageCount size unit) : unit * i < size := by
  rcases Nat.lt_or_eq_of_le (Nat.succ_le_of_lt hi) with hinner | hlast
  · have hend := end_of_inner hx.unit_pos hinner
    omega
  · have hend := end_of_last hlast
    have hpos := lastSize_pos size hx.unit_pos
    omega

theorem getPageAddressOfId_eq {i : Nat} (hi : i < pageCount size unit) :
    p.getPageAddressOfId i = start + unit * i := by
  have hoffset := hx.offset_lt hi
  have hfew := hx.few
  have hinside := hx.inside
  rw [Pages.getPageAddressOfId, hx.startAddress, hx.pageSize, toSizeT_natCast (by omega),
    wrap64_of_lt (show unit * i < 2 ^ 64 by omega), wrap64_of_lt (by omega)]

theorem getPageSizeOfId_inner {i : Nat} (hi : i + 1 < pageCount size unit) :
    p.getPageSizeOfId i = unit := by
  rw [Pages.getPageSizeOfId, if_pos (by rw [hx.numPages]; omega), hx.pageSize]

theorem getPageSizeOfId_last {i : Nat} (hi : i + 1 = pageCount size unit) :
    p.getPageSizeOfId i = lastSize size unit := by
  have hend := end_of_last hi
  have hinside := hx.inside
  have hnum : p.numPages - 1 = (i : Nat) := by
    rw [hx.numPages, ← hi]
    omega
  have hfew := hx.few
  rw [Pages.getPageSizeOfId, if_neg (by rw [hnum]; omega), hx.memorySize, hx.pageSize, hnum,
    toSizeT_natCast (by omega), wrap64_of_lt (by omega), sub64_of_le (by omega) (by omega),
    lastSize]
  split
  next => rfl
  next h =>
    rw [lastSize, if_neg h] at hend
    omega

end Indexed

theorem construct_layout {start size unit : Nat} {p : Pages}
    (h : Pages.construct start size unit = some p) (hsize : 0 < size)
    (hfew : pageCount size unit < 2 ^ 31)
    (hspace : start + unit * pageCount size unit < 2 ^ 64) : Layout start size unit p := by
  obtain ⟨hzero, hstart, hend, hmemory, hpage, hnum, -⟩ := construct_eq_some h
  have hunit : 0 < unit := Nat.pos_of_ne_zero hzero
  have hsplit := size_eq_pages size unit
  have hlast := lastSize_le size hunit
  exact ⟨hstart, by rw [hend, wrap64_of_lt (by omega)], hmemory, hpage,
    by rw [hnum, toInt32_of_lt hfew], hunit, hsize, hfew, hspace⟩

namespace Layout

variable {start size unit : Nat} {p : Pages} (hl : Layout start size unit p)

include hl

theorem size_le_space : start + size < 2 ^ 64 := by
  have hsplit := size_eq_pages size unit
  have hlast := lastSize_le size hl.unit_pos
  have hspace := hl.space
  omega

theorem page_end_lt {i : Nat} (hi : i < pageCount size unit) :
    start + unit * i + unit < 2 ^ 64 := by
  have hmul : unit * (i + 1) ≤ unit * pageCount size unit := Nat.mul_le_mul_left _ hi
  rw [Nat.mul_succ] at hmul
  have hspace := hl.space
  omega

theorem indexed : Indexed start size unit p :=
  ⟨hl.startAddress, hl.memorySize, hl.pageSize, hl.numPages, hl.unit_pos, hl.few,
    hl.size_le_space⟩

theorem getPageSizeAt_inner {i : Nat} (hi : i + 1 < pageCount size unit) :
    p.getPageSizeAt (start + unit * i) = unit := by
  have hend := end_of_inner hl.unit_pos hi
  have hspace := hl.size_le_space
  rw [Pages.getPageSizeAt, hl.pageSize, hl.endAddress, wrap64_of_lt (by omega)]
  exact if_neg (by omega)

/-- For the last page the address form gives the bytes behind the segment's end. -/
theorem getPageSizeAt_last {i : Nat} (hi : i + 1 = pageCount size unit) :
    p.getPageSizeAt (start + unit * i) =
      if size % unit = 0 then unit else unit - lastSize size unit := by
  have hlt := hl.page_end_lt (i := i) (by omega)
  have hend := end_of_last hi
  have hle := lastSize_le size hl.unit_pos
  rw [Pages.getPageSizeAt, hl.pageSize, hl.endAddress, wrap64_of_lt hlt]
  by_cases hmod : size % unit = 0
  · have hfull : lastSize size unit = unit := if_pos hmod
    rw [if_pos hmod]
    exact if_neg (by omega)
  · have hpart : lastSize size unit < unit := by
      rw [lastSize, if_neg hmod]
      exact Nat.mod_lt _ hl.unit_pos
    rw [if_neg hmod, if_pos (by omega), sub64_of_le (by omega) hlt]
    omega

end Layout

/-- The pages whose size the address form computes right: those before the last
one, and the last one if it is full or exactly half full. -/
def SizedRight (size unit i : Nat) : Prop :=
  i + 1 < pageCount size unit ∨ size % unit = 0 ∨ 2 * (size % unit) = unit

instance (size unit i : Nat) : Decidable (SizedRight size unit i) :=
  inferInstanceAs (Decidable (_ ∨ _))

namespace Layout

variable {start size unit : Nat} {p : Pages} (hl : Layout start size unit p)

include hl

theorem getPageSizeAt_eq_iff {i : Nat} (hi : i < pageCount size unit) :
    p.getPageSizeAt (start + unit * i) = p.getPageSizeOfId i ↔ SizedRight size unit i := by
  by_cases hinner : i + 1 < pageCount size unit
  · rw [hl.getPageSizeAt_inner hinner, hl.indexed.getPageSizeOfId_inner hinner]
    exact iff_of_true rfl (.inl hinner)
  · have hlast : i + 1 = pageCount size unit := by omega
    have hmod := Nat.mod_lt size hl.unit_pos
    rw [hl.getPageSizeAt_last hlast, hl.indexed.getPageSizeOfId_last hlast, SizedRight, lastSize]
    split <;> omega

theorem page_end_iff {i : Nat} (hi : i < pageCount size unit) :
    (start + unit * i + p.getPageSizeAt (start + unit * i) = start + unit * i + unit ∨
      start + unit * i + p.getPageSizeAt (start + unit * i) = start + size) ↔
      SizedRight size unit i := by
  by_cases hinner : i + 1 < pageCount size unit
  · rw [hl.getPageSizeAt_inner hinner]
    exact iff_of_true (.inl rfl) (.inl hinner)
  · have hlast : i + 1 = pageCount size unit := by omega
    have hmod := Nat.mod_lt size hl.unit_pos
    have hend := end_of_last hlast
    rw [hl.getPageSizeAt_last hlast, SizedRight]
    by_cases hfull : size % unit = 0
    · rw [if_pos hfull]
      exact iff_of_true (.inl rfl) (.inr (.inl hfull))
    · rw [lastSize, if_neg hfull] at hend
      rw [if_neg hfull, lastSize, if_neg hfull]
      omega

theorem index_lt {a : Nat} (hlo : start ≤ a) (hhi : a < start + size) :
    (a - start) / unit < pageCount size unit := by
  have hsplit := size_eq_pages size unit
  have hlast := lastSize_le size hl.unit_pos
  rw [Nat.div_lt_iff_lt_mul hl.unit_pos, Nat.mul_comm]
  omega

end Layout

/-- `hspace` says that the pages of the segment lie in the address space. -/
theorem page_size_by_address {k start size : Nat} {p : Pages} (hsize : 0 < size)
    (hstart : 2 ^ k ∣ start) (hfew : pageCount size (2 ^ k) < 2 ^ 31)
    (hspace : start + 2 ^ k * pageCount size (2 ^ k) < 2 ^ 64)
    (hp : Pages.construct start size (2 ^ k) = some p) :
    (∀ i : Nat, i < p.numPages →
      (p.getPageSizeAt (p.getPageAddressOfId i) = p.getPageSizeOfId i ↔
        SizedRight size (2 ^ k) i)) ∧
    ∀ a, start ≤ a → a < start + size →
      let page := p.getPageAddress a
      (page + p.getPageSizeAt page = page + 2 ^ k ∨
        page + p.getPageSizeAt page = start + size ↔
        SizedRight size (2 ^ k) ((a - start) / 2 ^ k)) := by
  have hl := construct_layout hp hsize hfew hspace
  have hk : k < 64 := by
    have hcount := pageCount_pos hl.unit_pos hsize
    have hle : 2 ^ k ≤ 2 ^ k * pageCount size (2 ^ k) := Nat.le_mul_of_pos_right _ hcount
    exact (Nat.pow_lt_pow_iff_right (by decide)).mp (by omega : 2 ^ k < 2 ^ 64)
  constructor
  · intro i hi
    rw [hl.numPages, Int.ofNat_lt] at hi
    rw [hl.indexed.getPageAddressOfId_eq hi]
    exact hl.getPageSizeAt_eq_iff hi
  · intro a hlo hhi
    have hend := hl.size_le_space
    have hpage := getPageAddress_aligned hk hl.pageSize hstart hlo (by omega)
    dsimp only
    rw [hpage]
    exact hl.page_end_iff (hl.index_lt hlo hhi)

/-- Two whole pages and a half one: the fault handler pulls the half page. -/
theorem page_size_by_address_half : ∃ p, Pages.construct 8192 10240 4096 = some p ∧
    p.getPageSizeAt (p.getPageAddressOfId 2) = p.getPageSizeOfId 2 ∧
    (p.getPageAddress 18000 + p.getPageSizeAt (p.getPageAddress 18000) =
        p.getPageAddress 18000 + 4096 ∨
      p.getPageAddress 18000 + p.getPageSizeAt (p.getPageAddress 18000) = 18432) := by
  obtain ⟨p, hp⟩ : ∃ p, Pages.construct 8192 10240 (2 ^ 12) = some p :=
    Option.isSome_iff_exists.mp (by decide)
  obtain ⟨hindex, haddress⟩ :=
    page_size_by_address (by decide) (by decide) (by decide) (by decide) hp
  have hnum : ((2 : Nat) : Int) < p.numPages := by
    obtain ⟨-, -, -, -, -, h, -⟩ := construct_eq_some hp
    rw [h]
    decide
  exact ⟨p, hp, (hindex 2 hnum).mpr (by decide),
    (haddress 18000 (by decide) (by decide)).mpr (by decide)⟩

/-- A segment of one page and 100 bytes: of its last page the address form asks for
3996 bytes, the index form for 100. -/
theorem short_page_sized_by_rest : ∃ p, Pages.construct 4096 4196 4096 = some p ∧
    p.getPageSizeOfId 1 = 100 ∧ p.getPageSizeAt (p.getPageAddressOfId 1) = 3996 ∧
    p.getPageAddress 8200 = 8192 ∧ p.getPageSizeAt (p.getPageAddress 8200) = 3996 := by
  obtain ⟨p, hp, hfacts⟩ := Option.map_eq_some_iff.mp
    (show (Pages.construct 4096 4196 4096).map (fun p =>
        (p.getPageSizeOfId 1, p.getPageSizeAt (p.getPageAddressOfId 1), p.getPageAddress 8200,
          p.getPageSizeAt (p.getPageAddress 8200))) = some (100, 3996, 8192, 3996) by decide)
  simp only [Prod.mk.injEq] at hfacts
  exact ⟨p, hp, hfacts⟩

/-! ## The page of an address -/

/-- The page that the fault handler finds for `a` is the one at the index of `a`: it
contains `a`, starts inside the segment, and `setPageStateCAS` computes its index. -/
structure PageOf (start size : Nat) (p : Pages) (a : Nat) : Prop where
  address : p.getPageAddress a = start + p.pageSize * ((a - start) / p.pageSize)
  le : p.getPageAddress a ≤ a
  lt : a < p.getPageAddress a + p.pageSize
  start_le : start ≤ p.getPageAddress a
  lt_end : p.getPageAddress a < start + size
  index : p.pageId (p.getPageAddress a) = ((a - start) / p.pageSize : Nat)

/-- The page size is a power of two that divides the start. A segment that is shorter
than a page needs less: a power of two that is not below its size has to divide start
and page size, and the mask must not clear any bit of the start. -/
def MaskRoundsDown (start size unit : Nat) : Prop :=
  (∃ k, unit = 2 ^ k ∧ 2 ^ k ∣ start) ∨
    0 < unit ∧ ∃ k, size ≤ 2 ^ k ∧ 2 ^ k ∣ start ∧ 2 ^ k ∣ unit ∧ start &&& (unit - 1) = 0

section PageOf

variable {start size unit a : Nat} {p : Pages}

theorem pageId_of_index (hstart : p.startAddress = start) (hunit : 0 < p.pageSize)
    (hlo : start ≤ a) (ha : a < 2 ^ 64) :
    p.pageId (start + p.pageSize * ((a - start) / p.pageSize)) =
      toInt32 ((a - start) / p.pageSize) := by
  have hle : p.pageSize * ((a - start) / p.pageSize) ≤ a - start := Nat.mul_div_le _ _
  rw [Pages.pageId, hstart, sub64_of_le (by omega) (by omega), Nat.add_sub_cancel_left,
    Nat.mul_div_cancel_left _ hunit]

theorem PageOf.of_address (hstart : p.startAddress = start) (hunit : 0 < p.pageSize)
    (hend : start + size ≤ 2 ^ 64) (hlo : start ≤ a) (hhi : a < start + size)
    (hindex : (a - start) / p.pageSize < 2 ^ 31)
    (h : p.getPageAddress a = start + p.pageSize * ((a - start) / p.pageSize)) :
    PageOf start size p a := by
  have hle : p.pageSize * ((a - start) / p.pageSize) ≤ a - start := Nat.mul_div_le _ _
  have hlt : a - start < p.pageSize * ((a - start) / p.pageSize) + p.pageSize := by
    rw [← Nat.mul_succ]
    exact Nat.lt_mul_div_succ _ hunit
  refine ⟨h, by omega, by omega, by omega, by omega, ?_⟩
  rw [h, pageId_of_index hstart hunit hlo (by omega), toInt32_of_lt hindex]

theorem PageOf.index_lt (h : PageOf start size p a) (hstart : p.startAddress = start)
    (hunit : 0 < p.pageSize) (hlo : start ≤ a) (ha : a < 2 ^ 64) :
    (a - start) / p.pageSize < 2 ^ 31 := by
  have hindex := h.index
  rw [h.address, pageId_of_index hstart hunit hlo ha] at hindex
  have hlt := toInt32_lt ((a - start) / p.pageSize)
  rw [hindex] at hlt
  exact_mod_cast hlt

theorem MaskRoundsDown.pos (h : MaskRoundsDown start size unit) : 0 < unit := by
  obtain ⟨k, rfl, -⟩ | ⟨hpos, -⟩ := h
  · exact Nat.two_pow_pos k
  · exact hpos

theorem MaskRoundsDown.getPageAddress_eq (h : MaskRoundsDown start size p.pageSize)
    (hunit : p.pageSize < 2 ^ 64) (hend : start + size ≤ 2 ^ 64) (hlo : start ≤ a)
    (hhi : a < start + size) :
    p.getPageAddress a = start + p.pageSize * ((a - start) / p.pageSize) := by
  have hpos := h.pos
  obtain ⟨k, hpow, hdvd⟩ | ⟨-, hblock⟩ := h
  · have hk : k < 64 := by
      rw [hpow] at hunit
      exact (Nat.pow_lt_pow_iff_right (by decide)).mp hunit
    rw [getPageAddress_aligned hk hpow hdvd hlo (by omega), hpow]
  · -- one page, and the mask takes every address to the start
    obtain ⟨k, hsize, hdvd, hdvd', hclear⟩ := hblock
    have hle : 2 ^ k ≤ p.pageSize := Nat.le_of_dvd hpos hdvd'
    have hmask := (land_not64_block_iff (show p.pageSize - 1 < 2 ^ 64 by omega)
      (show 0 < size by omega) hend).mpr
      ⟨k, hsize, hdvd, by rwa [Nat.sub_add_cancel hpos], hclear⟩ (a - start) (by omega)
    rw [Nat.div_eq_of_lt (by omega), Nat.mul_zero, Nat.add_zero, Pages.getPageAddress,
      sub64_of_le hpos hunit]
    rwa [Nat.add_sub_cancel' hlo] at hmask

/-- The addresses of the first page, or of the whole segment if that is shorter, decide. -/
theorem MaskRoundsDown.of_getPageAddress (hpos : 0 < p.pageSize) (hunit : p.pageSize < 2 ^ 64)
    (hsize : 0 < size) (hend : start + size ≤ 2 ^ 64) (h : ∀ a, start ≤ a → a < start + size →
      p.getPageAddress a = start + p.pageSize * ((a - start) / p.pageSize)) :
    MaskRoundsDown start size p.pageSize := by
  have hblock : ∀ t < min size p.pageSize, (start + t) &&& not64 (p.pageSize - 1) = start := by
    intro t ht
    have hpage := h (start + t) (by omega) (by omega)
    rwa [Nat.add_sub_cancel_left, Nat.div_eq_of_lt (by omega), Nat.mul_zero, Nat.add_zero,
      Pages.getPageAddress, sub64_of_le hpos hunit] at hpage
  obtain ⟨k, hle, hdvd, hdvd', hclear⟩ :=
    (land_not64_block_iff (by omega) (by omega) (by omega)).mp hblock
  rw [Nat.sub_add_cancel hpos] at hdvd'
  rcases Nat.lt_or_ge size p.pageSize with hshort | hlong
  · exact .inr ⟨hpos, k, by omega, hdvd, hdvd', hclear⟩
  · have hpow := Nat.le_of_dvd hpos hdvd'
    exact .inl ⟨k, by omega, hdvd⟩

/-- Whatever the page size the segment was built with. -/
theorem page_of_address {pageSize : Nat} (hp : Pages.construct start size pageSize = some p)
    (hsize : 0 < size) (hend : start + size ≤ 2 ^ 64) (hunit : unit < 2 ^ 64) :
    (∀ a, start ≤ a → a < start + size → PageOf start size (p.setPageSize unit) a) ↔
      MaskRoundsDown start size unit ∧ (size - 1) / unit < 2 ^ 31 := by
  have hstart : (p.setPageSize unit).startAddress = start := (construct_eq_some hp).2.1
  constructor
  · intro h
    have hpos : 0 < unit := by
      have hfirst := h start le_rfl (by omega)
      have hcontains := Nat.lt_of_le_of_lt hfirst.le hfirst.lt
      exact Nat.pos_of_ne_zero fun hzero => by simp [Pages.setPageSize, hzero] at hcontains
    refine ⟨MaskRoundsDown.of_getPageAddress (p := p.setPageSize unit) hpos hunit hsize hend
      fun a hlo hhi => (h a hlo hhi).address, ?_⟩
    have hlast := (h (start + (size - 1)) (by omega) (by omega)).index_lt hstart hpos (by omega)
      (by omega)
    rwa [Nat.add_sub_cancel_left] at hlast
  · rintro ⟨hmask, hfew⟩ a hlo hhi
    refine .of_address hstart hmask.pos hend hlo hhi ?_
      (MaskRoundsDown.getPageAddress_eq (p := p.setPageSize unit) hmask hunit hend hlo hhi)
    exact Nat.lt_of_le_of_lt (Nat.div_le_div_right (by omega)) hfew

/-- Pages of 8192 bytes in a segment that starts at 16384. -/
theorem page_of_address_double : ∃ p, Pages.construct 16384 20480 4096 = some p ∧
    (p.setPageSize 8192).getPageAddress 30000 = 24576 ∧
    (p.setPageSize 8192).pageId ((p.setPageSize 8192).getPageAddress 30000) = 1 := by
  obtain ⟨p, hp⟩ : ∃ p, Pages.construct 16384 20480 4096 = some p :=
    Option.isSome_iff_exists.mp (by decide)
  have hpage := (page_of_address hp (by decide) (by decide) (show 8192 < 2 ^ 64 by decide)).mpr
    ⟨.inl ⟨13, by decide, by decide⟩, by decide⟩ 30000 (by decide) (by decide)
  have haddress : (p.setPageSize 8192).getPageAddress 30000 =
      16384 + 8192 * ((30000 - 16384) / 8192) := hpage.address
  have hindex : (p.setPageSize 8192).pageId ((p.setPageSize 8192).getPageAddress 30000) =
      ((30000 - 16384) / 8192 : Nat) := hpage.index
  exact ⟨p, hp, haddress, hindex⟩

end PageOf

/-- A segment that starts at 4096. With pages of 8192 bytes the mask gives a page in
front of the segment, with index -1; with pages of 12288 bytes it does not round
down to a page at all. -/
theorem page_of_address_masked : ∃ p, Pages.construct 4096 40960 4096 = some p ∧
    (p.setPageSize 8192).getPageAddress 4096 = 0 ∧ (p.setPageSize 8192).pageId 0 = -1 ∧
    (p.setPageSize 12288).getPageAddress 20480 = 20480 ∧
    4096 + 12288 * ((20480 - 4096) / 12288) = 16384 := by
  obtain ⟨p, hp, hfacts⟩ := Option.map_eq_some_iff.mp
    (show (Pages.construct 4096 40960 4096).map (fun p =>
        ((p.setPageSize 8192).getPageAddress 4096, (p.setPageSize 8192).pageId 0,
          (p.setPageSize 12288).getPageAddress 20480)) = some (0, -1, 20480) by decide)
  simp only [Prod.mk.injEq] at hfacts
  exact ⟨p, hp, hfacts.1, hfacts.2.1, hfacts.2.2, rfl⟩

end RdmaMigration.Paging
