import Joes.Bitmap

/-!
# The regions of the physical memory manager

`pmm_region.c`: a region keeps a pointer to its bitmap, one bit for each page,
and counts the pages whose bit is clear. The bitmaps lie in the memory behind
the direct map; a region holds only the pointer, and an assignment through it
is an assignment to that memory.

Addresses, lengths and counters are natural numbers, with the reductions
modulo `2 ^ 64` of the source written out. The length of a region is a
`ptrdiff_t` there: it is kept as the 64-bit pattern, and the one operation that
sees its sign, the division by the page size in `pmm_region_init`, is
`regionPages`.
-/

/-- `pmm_memory_types_t`. -/
inductive PmmMemoryType where
  /-- `MEMMAP_TYPE_USABLE` -/
  | usable
  /-- `MEMMAP_TYPE_RESERVED` -/
  | reserved
  /-- `MEMMAP_TYPE_ACPI_RECLAIMABLE` -/
  | acpiReclaimable
  /-- `MEMMAP_TYPE_ACPI_NON_VOLATILE` -/
  | acpiNonVolatile
  /-- `MEMMAP_TYPE_BAD_MEMORY` -/
  | badMemory
  /-- `MEMMAP_TYPE_BOOTLOADER_RECLAIMABLE` -/
  | bootloaderReclaimable
  /-- `MEMMAP_TYPE_KERNEL_AND_MODULES` -/
  | kernelAndModules
  /-- `MEMMAP_TYPE_FRAMEBUFFER` -/
  | framebuffer
  deriving DecidableEq, Repr

/-- `pmm_region_error_codes_t`. -/
inductive PmmRegionErrorCode where
  /-- `PMM_REGION_OK` -/
  | ok
  /-- `PMM_REGION_ERROR` -/
  | error
  deriving DecidableEq, Repr

/-- `struct pmm_region_t`. -/
structure PmmRegion where
  /-- Where the bitmap lies. -/
  bitmap : BitVec 64
  /-- The bytes of the bitmap. -/
  bitmapSize : ℕ
  /-- The physical address of the first page. -/
  base : ℕ
  /-- The length in bytes. -/
  length : ℕ
  /-- The number of pages counted as free. -/
  freePages : ℕ
  /-- The type of memory. -/
  type : PmmMemoryType
  deriving DecidableEq, Repr

/-- `UINT8_MAX`. -/
abbrev uint8Max : BitVec 8 := 0xFF#8

/-- `region_length / PAGE_SIZE_BYTE`, a signed division whose quotient becomes
a `size_t`. -/
def regionPages (length : ℕ) : ℕ := ((Int.bmod length (2 ^ 64)).tdiv 4096 % 2 ^ 64).toNat

/-- `(region->free_pages + 7) / 8`, the size of the bitmap. -/
def regionBitmapSize (length : ℕ) : ℕ := (regionPages length + 7) % 2 ^ 64 / 8

/-- `pmm_region_init`. -/
def pmmRegionInit (mem : ByteMemory) (bitmapBase : BitVec 64) (regionBase regionLength : ℕ)
    (regionType : PmmMemoryType) : PmmRegion × ByteMemory :=
  let region : PmmRegion :=
    { bitmap := bitmapBase
      bitmapSize := regionBitmapSize regionLength
      base := regionBase
      length := regionLength
      freePages := regionPages regionLength
      type := regionType }
  if regionType = .usable then
    (region, Bitmap.fill mem bitmapBase 0#8 region.bitmapSize)
  else
    ({ region with freePages := 0 }, Bitmap.fill mem bitmapBase uint8Max region.bitmapSize)

namespace PmmRegion

/-- The test with which both marking functions reject an address. -/
def Rejects (r : PmmRegion) (physAddress : ℕ) : Prop :=
  physAddress < r.base ∨ (r.base + r.length) % 2 ^ 64 < physAddress

instance (r : PmmRegion) (physAddress : ℕ) : Decidable (r.Rejects physAddress) :=
  inferInstanceAs (Decidable (_ ∨ _))

/-- The number that the marking functions give to the page of an address. -/
def pageOf (r : PmmRegion) (physAddress : ℕ) : ℕ := (physAddress - r.base) / 4096

/-- The address of a page. -/
def pageAddress (r : PmmRegion) (page : ℕ) : ℕ := (r.base + page * 4096) % 2 ^ 64

end PmmRegion

/-- `pmm_region_mark_page_free`. -/
def pmmRegionMarkPageFree (r : PmmRegion) (physAddress : ℕ) (mem : ByteMemory) :
    PmmRegionErrorCode × PmmRegion × ByteMemory :=
  if r.Rejects physAddress then
    (.error, r, mem)
  else
    (.ok, { r with freePages := (r.freePages + 1) % 2 ^ 64 },
      Bitmap.clearBit mem r.bitmap (r.pageOf physAddress))

/-- `pmm_region_mark_page_used`. -/
def pmmRegionMarkPageUsed (r : PmmRegion) (physAddress : ℕ) (mem : ByteMemory) :
    PmmRegionErrorCode × PmmRegion × ByteMemory :=
  if r.Rejects physAddress then
    (.error, r, mem)
  else
    (.ok, { r with freePages := (r.freePages + 2 ^ 64 - 1) % 2 ^ 64 },
      Bitmap.setBit mem r.bitmap (r.pageOf physAddress))

/-! ## The sizes of a region -/

/-- A length that is positive as a `ptrdiff_t` is divided as expected. -/
theorem regionPages_of_lt {length : ℕ} (h : length < 2 ^ 63) :
    regionPages length = length / 4096 := by
  unfold regionPages
  have hb : Int.bmod (length : ℤ) (2 ^ 64) = (length : ℤ) := by
    apply Int.bmod_eq_of_le_mul_two <;> omega
  rw [hb, Int.tdiv_eq_ediv_of_nonneg (by omega)]
  omega

/-- The bitmap of such a region has a bit for every page, and less than eight
bits beyond them. -/
theorem regionBitmapSize_of_lt {length : ℕ} (h : length < 2 ^ 63) :
    regionBitmapSize length = (length / 4096 + 7) / 8 := by
  unfold regionBitmapSize
  rw [regionPages_of_lt h]
  omega

theorem regionBitmapSize_zero : regionBitmapSize 0 = 0 := by
  rw [regionBitmapSize_of_lt (by norm_num)]

/-- No bitmap takes more than an eighth of the address space. -/
theorem regionBitmapSize_le (length : ℕ) : regionBitmapSize length ≤ 2 ^ 61 := by
  unfold regionBitmapSize
  omega

/-- **What `pmm_region_init` does**, in one line for the two kinds of memory. -/
theorem pmmRegionInit_eq (mem : ByteMemory) (ptr : BitVec 64) (base length : ℕ)
    (type : PmmMemoryType) :
    pmmRegionInit mem ptr base length type
      = ({ bitmap := ptr, bitmapSize := regionBitmapSize length, base := base, length := length,
           freePages := if type = .usable then regionPages length else 0, type := type },
         Bitmap.fill mem ptr (if type = .usable then 0#8 else uint8Max)
           (regionBitmapSize length)) := by
  unfold pmmRegionInit
  split <;> rfl

/-! ## Marking a page -/

section Mark

variable (r : PmmRegion) (a : ℕ) (mem : ByteMemory)

theorem pmmRegionMarkPageUsed_of_rejects (h : r.Rejects a) :
    pmmRegionMarkPageUsed r a mem = (.error, r, mem) :=
  if_pos h

theorem pmmRegionMarkPageUsed_of_not_rejects (h : ¬ r.Rejects a) :
    pmmRegionMarkPageUsed r a mem
      = (.ok, { r with freePages := (r.freePages + 2 ^ 64 - 1) % 2 ^ 64 },
          Bitmap.setBit mem r.bitmap (r.pageOf a)) :=
  if_neg h

theorem pmmRegionMarkPageFree_of_rejects (h : r.Rejects a) :
    pmmRegionMarkPageFree r a mem = (.error, r, mem) :=
  if_pos h

theorem pmmRegionMarkPageFree_of_not_rejects (h : ¬ r.Rejects a) :
    pmmRegionMarkPageFree r a mem
      = (.ok, { r with freePages := (r.freePages + 1) % 2 ^ 64 },
          Bitmap.clearBit mem r.bitmap (r.pageOf a)) :=
  if_neg h

end Mark
