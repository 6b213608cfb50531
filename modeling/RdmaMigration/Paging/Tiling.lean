import RdmaMigration.Lib.Ranges
import RdmaMigration.Paging.Table

/-! # Pages by index

`getPageAddress(int)` and `getPageSize(int)` number the pages of a segment, and the loops
over whole segments go by these numbers. `setPageState`, `setPageStateCAS` and
`getPageState` divide an address by the page size to find the number again.
-/

namespace RdmaMigration.Paging

open Lib

namespace Pages

def page (p : Pages) (i : Nat) : Nat × Nat := (p.getPageAddressOfId i, p.getPageSizeOfId i)

def byIndex (p : Pages) : List (Nat × Nat) := (List.range p.numPages.toNat).map p.page

/-- The pages cut `size` bytes from `start` on into consecutive ranges, and an address
leads back to the number of its page. -/
structure TiledByIndex (p : Pages) (start size : Nat) : Prop where
  nonempty : ∀ r ∈ p.byIndex, 0 < r.2
  consecutive : Tiles start p.byIndex (start + size)
  disjoint : p.byIndex.Pairwise fun q r => ¬ Overlap q r
  union : ∀ a, Covered p.byIndex a ↔ start ≤ a ∧ a < start + size
  index : ∀ i : Nat, i < p.numPages → ∀ a, Covers (p.page i) a → p.pageId a = i

end Pages

theorem construct_indexed {start size unit : Nat} {p : Pages}
    (h : Pages.construct start size unit = some p) (hfew : pageCount size unit < 2 ^ 31)
    (hend : start + size < 2 ^ 64) : Indexed start size unit p := by
  obtain ⟨hzero, hstart, -, hmemory, hpage, hnum, -⟩ := construct_eq_some h
  exact ⟨hstart, hmemory, hpage, by rw [hnum, toInt32_of_lt hfew], Nat.pos_of_ne_zero hzero, hfew,
    hend⟩

/-- The constructor fails only for a page size of zero or a number of pages that is
negative as an `int`. -/
theorem construct_isSome (start : Nat) {size unit : Nat} (hunit : 0 < unit)
    (hfew : pageCount size unit < 2 ^ 31) : ∃ p, Pages.construct start size unit = some p := by
  have hok : ¬ (unit = 0 ∨ toInt32 (pageCount size unit) < 0) := by
    rw [toInt32_of_lt hfew]
    omega
  exact ⟨_, if_neg hok⟩

namespace Indexed

variable {start size unit i : Nat} {p : Pages} (hx : Indexed start size unit p)

include hx

theorem page_edges (hi : i < pageCount size unit) :
    (p.page i).1 = start + min (unit * i) size ∧
      start + min (unit * i) size + (p.page i).2 = start + min (unit * (i + 1)) size := by
  have hoffset := hx.offset_lt hi
  refine ⟨?_, ?_⟩
  · rw [Pages.page, hx.getPageAddressOfId_eq hi]
    omega
  · rw [Pages.page, Nat.mul_succ]
    rcases Nat.lt_or_eq_of_le (Nat.succ_le_of_lt hi) with hinner | hlast
    · have hend := end_of_inner hx.unit_pos hinner
      rw [hx.getPageSizeOfId_inner hinner]
      omega
    · have hend := end_of_last hlast
      have hle := lastSize_le size hx.unit_pos
      rw [hx.getPageSizeOfId_last hlast]
      omega

theorem page_size_pos (hi : i < pageCount size unit) : 0 < (p.page i).2 := by
  have hedges := hx.page_edges hi
  have hoffset := hx.offset_lt hi
  have hunit := hx.unit_pos
  rw [Nat.mul_succ] at hedges
  omega

theorem byIndex_tiles : Tiles start p.byIndex (start + size) := by
  have htiles : Tiles (start + min (unit * 0) size) p.byIndex
      (start + min (unit * pageCount size unit) size) := by
    rw [Pages.byIndex, hx.numPages, Int.toNat_natCast]
    exact tiles_map_range (fun i => start + min (unit * i) size) fun i hi => hx.page_edges hi
  have hsplit := size_eq_pages size unit
  have hle := lastSize_le size hx.unit_pos
  rwa [Nat.mul_zero, Nat.zero_min, Nat.add_zero, Nat.min_eq_right (by omega)] at htiles

theorem pageId_of_covers (hi : i < pageCount size unit) {a : Nat} (ha : Covers (p.page i) a) :
    p.pageId a = i := by
  obtain ⟨hlow, hhigh⟩ := hx.page_edges hi
  have hoffset := hx.offset_lt hi
  have hinside := hx.inside
  unfold Covers at ha
  have hdiv : (a - start) / unit = i := by
    refine Nat.div_eq_of_lt_le ?_ ?_ <;> rw [Nat.mul_comm] <;> omega
  rw [Pages.pageId, hx.startAddress, hx.pageSize, sub64_of_le (by omega) (by omega), hdiv,
    toInt32_of_lt (Nat.lt_trans hi hx.few)]

theorem tiledByIndex : p.TiledByIndex start size where
  nonempty := by
    intro r hr
    obtain ⟨i, hi, rfl⟩ := List.mem_map.mp hr
    rw [hx.numPages, Int.toNat_natCast] at hi
    exact hx.page_size_pos (List.mem_range.mp hi)
  consecutive := hx.byIndex_tiles
  disjoint := hx.byIndex_tiles.apart
  union := hx.byIndex_tiles.covered
  index := by
    intro i hi a ha
    rw [hx.numPages] at hi
    exact hx.pageId_of_covers (by exact_mod_cast hi) ha

end Indexed

/-- The page size need not be a power of two or divide the size, and the start need not be
aligned. -/
theorem pages_tile_segment {start size unit : Nat} (hsize : 0 < size) (hunit : 0 < unit)
    (hfew : (size + unit - 1) / unit < 2 ^ 31) (hend : start + size < 2 ^ 64) :
    ∃ p, Pages.construct start size unit = some p ∧
      0 < p.numPages ∧ p.numPages = ((size + unit - 1) / unit : Nat) ∧
      p.TiledByIndex start size := by
  have hpos := pageCount_pos hunit hsize
  rw [← pageCount_eq_ceiling size hunit] at hfew ⊢
  obtain ⟨p, hp⟩ := construct_isSome start hunit hfew
  have hx := construct_indexed hp hfew hend
  exact ⟨p, hp, by rw [hx.numPages]; omega, hx.numPages, hx.tiledByIndex⟩

theorem pages_tile_segment_short : ∃ p, Pages.construct 4098 10000 4095 = some p ∧
    p.byIndex = [(4098, 4095), (8193, 4095), (12288, 1810)] ∧ p.TiledByIndex 4098 10000 := by
  obtain ⟨p, hp, -, -, htiled⟩ := @pages_tile_segment 4098 10000 4095 (by decide) (by decide)
    (by decide) (by decide)
  refine ⟨p, hp, ?_, htiled⟩
  cases hp
  decide

end RdmaMigration.Paging
