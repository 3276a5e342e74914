import Joes.PmmRegion

/-!
# The physical memory manager

`pmm.c`: the state of the manager is its static variables and the memory that
its bitmaps lie in. `pmm_init` lays the region array and the bitmaps out at the
start of the first usable entry of the memory map that has room for them;
`pmm_alloc` searches the bitmaps from where it stopped last; `pmm_free` looks
the region of an address up by binary search.

The loops are functions of the number of rounds they have done, so that the
state after `t` rounds is a value that an induction can speak about; a round
after an early exit does nothing. `pmm_alloc` is split where the source starts
to write: `searchRegions` finds the page and updates the two caches,
`pmmAlloc` marks it.

The region array is a function of the index, not bytes of the memory. An access
to it outside its bounds is undefined behaviour, and so are the functions that
make one.
-/

/-- One entry of the memory map. -/
structure LimineMemmapEntry where
  /-- The physical address of the first byte. -/
  base : ℕ
  /-- The length in bytes. -/
  length : ℕ
  /-- The type of memory. -/
  type : PmmMemoryType
  deriving DecidableEq, Repr

/-- `struct limine_memmap_response`. -/
structure LimineMemmapResponse where
  /-- The number of entries. -/
  entryCount : ℕ
  /-- The entries, the first `entryCount` of which exist. -/
  entries : ℕ → LimineMemmapEntry

/-- `pmm_error_codes_t`. -/
inductive PmmErrorCode where
  /-- `PMM_OK` -/
  | ok
  /-- `PMM_ERROR_INIT_FAILED` -/
  | initFailed
  /-- `PMM_ERROR_ADDRESS_NOT_FOUND` -/
  | addressNotFound
  deriving DecidableEq, Repr

/-- The static variables of the manager, and the memory behind the direct
map. -/
structure Pmm where
  /-- `pmm_memory_size_pages` -/
  memorySizePages : ℕ
  /-- `pmm_num_regions` -/
  numRegions : ℕ
  /-- `phys_to_virt_offset` -/
  physToVirtOffset : BitVec 64
  /-- The pointer `pmm_regions`. -/
  regionsPtr : BitVec 64
  /-- The array behind that pointer. -/
  regions : ℕ → PmmRegion
  /-- `region_cache` of `pmm_alloc`. -/
  regionCache : ℕ
  /-- `bitmap_cache` of `pmm_alloc`. -/
  bitmapCache : ℕ
  /-- The memory. -/
  mem : ByteMemory

/-- The static variables before `pmm_init`, over a memory of zeros. -/
def bootPmm : Pmm where
  memorySizePages := 0
  numRegions := 0
  physToVirtOffset := 0#64
  regionsPtr := 0#64
  regions := fun _ => ⟨0#64, 0, 0, 0, 0, .usable⟩
  regionCache := 0
  bitmapCache := 0
  mem := fun _ => 0#8

/-- `phys_to_virt`. -/
def physToVirt (phys : ℕ) (offset : BitVec 64) : BitVec 64 := BitVec.ofNat 64 phys + offset

/-- `sizeof(struct pmm_region_t)`. -/
abbrev sizeofPmmRegion : ℕ := 48

/-! ## Initialization -/

/-- The sum that `pmm_detect_memory` builds, after the first `t` entries. -/
def pmmMemorySizeByte (memmap : LimineMemmapResponse) : ℕ → ℕ
  | 0 => 0
  | t + 1 => (pmmMemorySizeByte memmap t + (memmap.entries t).length) % 2 ^ 64

/-- `pmm_detect_memory`: the number of regions and of pages. -/
def pmmDetectMemory (memmap : LimineMemmapResponse) : ℕ × ℕ :=
  (memmap.entryCount, pmmMemorySizeByte memmap memmap.entryCount / 4096)

/-- `pmm_get_num_required_pages`. -/
def pmmGetNumRequiredPages (regions pages : ℕ) : ℕ :=
  (regions * sizeofPmmRegion + (pages + 7) / 8 + 4096 - 1) % 2 ^ 64 / 4096

/-- The first usable entry that has room for the manager's data. -/
def findPmmEntry (memmap : LimineMemmapResponse) (requiredPages : ℕ) : Option ℕ :=
  (List.range memmap.entryCount).find? fun i =>
    (memmap.entries i).type = .usable
      ∧ requiredPages * 4096 % 2 ^ 64 ≤ (memmap.entries i).length

namespace Pmm

/-- Assign to `pmm_regions[i]` and to the memory. -/
def withRegion (p : Pmm) (i : ℕ) (r : PmmRegion) (mem : ByteMemory) : Pmm :=
  { p with regions := Function.update p.regions i r, mem := mem }

/-- `pmm_region_mark_page_used(&pmm_regions[i], physAddress)`. -/
def markPageUsed (p : Pmm) (i physAddress : ℕ) : PmmRegionErrorCode × Pmm :=
  let result := pmmRegionMarkPageUsed (p.regions i) physAddress p.mem
  (result.1, p.withRegion i result.2.1 result.2.2)

/-- `pmm_region_mark_page_free(&pmm_regions[i], physAddress)`. -/
def markPageFree (p : Pmm) (i physAddress : ℕ) : PmmRegionErrorCode × Pmm :=
  let result := pmmRegionMarkPageFree (p.regions i) physAddress p.mem
  (result.1, p.withRegion i result.2.1 result.2.2)

/-- The first loop of `pmm_init_region_structs`, after `t` rounds: the state,
and the physical address behind the last bitmap. -/
def initRegions (memmap : LimineMemmapResponse) (offset : BitVec 64) (p : Pmm)
    (bitmapBase : ℕ) : ℕ → Pmm × ℕ
  | 0 => (p, bitmapBase)
  | t + 1 =>
    let s := initRegions memmap offset p bitmapBase t
    let e := memmap.entries t
    let init := pmmRegionInit s.1.mem (physToVirt s.2 offset) e.base e.length e.type
    (s.1.withRegion t init.1 init.2, (s.2 + init.1.bitmapSize) % 2 ^ 64)

/-- The loop that marks the pages of the manager's data in region `i`, after
`t` rounds. -/
def markRequiredPages (i : ℕ) (offset : BitVec 64) (p : Pmm) : ℕ → PmmErrorCode × Pmm
  | 0 => (.ok, p)
  | t + 1 =>
    match markRequiredPages i offset p t with
    | (.ok, p') =>
      match p'.markPageUsed i (((p'.regionsPtr - offset).toNat + t * 4096) % 2 ^ 64) with
      | (.ok, p'') => (.ok, p'')
      | (.error, p'') => (.initFailed, p'')
    | failed => failed

/-- The region whose first pages are marked: the first one with this base. -/
def findRegionWithBase (p : Pmm) (base : ℕ) : Option ℕ :=
  (List.range p.numRegions).find? fun i => (p.regions i).base = base

/-- `pmm_init_region_structs`. -/
def initRegionStructs (memmap : LimineMemmapResponse) (base : ℕ) (offset : BitVec 64)
    (requiredPages : ℕ) (p : Pmm) : PmmErrorCode × Pmm :=
  let p₁ := { p with regionsPtr := physToVirt base offset }
  let bitmapBase := (base + p₁.numRegions * sizeofPmmRegion) % 2 ^ 64
  let p₂ := (initRegions memmap offset p₁ bitmapBase p₁.numRegions).1
  match p₂.findRegionWithBase base with
  | some i => markRequiredPages i offset p₂ requiredPages
  | none => (.ok, p₂)

end Pmm

/-- `pmm_init`. -/
def pmmInit (memmap : LimineMemmapResponse) (hhdmOffset : BitVec 64) (p : Pmm) :
    PmmErrorCode × Pmm :=
  let detected := pmmDetectMemory memmap
  let p₁ := { p with
    physToVirtOffset := hhdmOffset
    numRegions := detected.1
    memorySizePages := detected.2 }
  let requiredPages := pmmGetNumRequiredPages p₁.numRegions p₁.memorySizePages
  let pmmBase := match findPmmEntry memmap requiredPages with
    | some i => (memmap.entries i).base
    | none => 0
  if pmmBase = 0 then
    (.initFailed, p₁)
  else
    match p₁.initRegionStructs memmap pmmBase p₁.physToVirtOffset requiredPages with
    | (.ok, p₂) => (.ok, p₂)
    | (_, p₂) => (.initFailed, p₂)

/-! ## Allocation -/

/-- A bit of a region's bitmap. -/
structure PageSlot where
  /-- The index of the region. -/
  region : ℕ
  /-- The byte of its bitmap. -/
  byte : ℕ
  /-- The bit of that byte. -/
  bit : ℕ
  deriving DecidableEq, Repr

/-- The page that the bit stands for. -/
def PageSlot.page (s : PageSlot) : ℕ := s.byte * 8 + s.bit

namespace Pmm

/-- `pmm_regions[i].bitmap[b]`. -/
def bitmapByte (p : Pmm) (i b : ℕ) : BitVec 8 := Bitmap.byteAt p.mem (p.regions i).bitmap b

/-- The bit of page `k` in the bitmap of region `i`. -/
def pageBit (p : Pmm) (i k : ℕ) : Bool := Bitmap.bitAt p.mem (p.regions i).bitmap k

/-- The bit of a page by its byte and its place there. -/
theorem pageBit_mul_add (p : Pmm) (i b : ℕ) {k : ℕ} (hk : k < 8) :
    p.pageBit i (b * 8 + k) = (p.bitmapByte i b).getLsbD k :=
  Bitmap.bitAt_mul_add _ _ _ hk

/-- The loop over the bits of a byte. -/
def searchByte (byte : BitVec 8) : Option ℕ :=
  (List.range 8).find? fun k => byte &&& 1#8 <<< k = 0#8

/-- The byte that round `j` of the loop over a bitmap looks at. -/
def bitmapIndex (p : Pmm) (i j : ℕ) : ℕ :=
  (j + p.bitmapCache) % 2 ^ 64 % (p.regions i).bitmapSize

/-- The loop over the bytes of the bitmap of region `i`, after `t` rounds. -/
def searchBitmap (p : Pmm) (i : ℕ) : ℕ → Option PageSlot × Pmm
  | 0 => (none, p)
  | t + 1 =>
    match searchBitmap p i t with
    | (none, p') =>
      let b := p'.bitmapIndex i t
      if p'.bitmapByte i b = uint8Max then
        (none, p')
      else
        ((searchByte (p'.bitmapByte i b)).map fun k => ⟨i, b, k⟩, { p' with bitmapCache := b })
    | found => found

/-- The region that round `t` of the loop over the regions looks at. -/
def regionIndex (p : Pmm) (t : ℕ) : ℕ := (t + p.regionCache) % 2 ^ 64 % p.numRegions

/-- The loop over the regions, after `t` rounds. -/
def searchRegions (p : Pmm) : ℕ → Option PageSlot × Pmm
  | 0 => (none, p)
  | t + 1 =>
    match searchRegions p t with
    | (none, p') =>
      let i := p'.regionIndex t
      if (p'.regions i).freePages = 0 then
        (none, p')
      else
        let p'' := { p' with regionCache := i }
        p''.searchBitmap i (p''.regions i).bitmapSize
    | found => found

end Pmm

/-- `pmm_alloc`, with 0 for `NULL`. -/
def pmmAlloc (p : Pmm) : ℕ × Pmm :=
  match p.searchRegions p.numRegions with
  | (some s, p') =>
    let ptr := (p'.regions s.region).pageAddress s.page
    (ptr, (p'.markPageUsed s.region ptr).2)
  | (none, p') => (0, p')

/-! ## Giving a page back -/

/-- How `get_region_containing_page` ends. -/
inductive RegionLookup where
  /-- `PMM_OK`, with the index of the region. -/
  | found (i : ℕ)
  /-- `PMM_ERROR_ADDRESS_NOT_FOUND`. -/
  | notFound
  /-- An access behind the end of the region array. -/
  | outOfBounds
  deriving DecidableEq, Repr

namespace Pmm

/-- The loop of `get_region_containing_page`, with the rounds that are left and
the two bounds. -/
def lookupLoop (p : Pmm) (ptr : ℕ) : ℕ → ℕ → ℕ → RegionLookup
  | 0, _, _ => .notFound
  | left + 1, lowerBound, upperBound =>
    let i := (lowerBound + (upperBound + 2 ^ 64 - lowerBound) % 2 ^ 64 / 2) % 2 ^ 64
    if p.numRegions ≤ i then
      .outOfBounds
    else if ptr < (p.regions i).base then
      lookupLoop p ptr left lowerBound ((i + 2 ^ 64 - 1) % 2 ^ 64)
    else if ((p.regions i).base + (p.regions i).length + 2 ^ 64 - 1) % 2 ^ 64 < ptr then
      lookupLoop p ptr left ((i + 1) % 2 ^ 64) upperBound
    else
      .found i

/-- `get_region_containing_page`. -/
def getRegionContainingPage (p : Pmm) (ptr : ℕ) : RegionLookup :=
  p.lookupLoop ptr p.numRegions 0 ((p.numRegions + 2 ^ 64 - 1) % 2 ^ 64)

end Pmm

/-- `pmm_free`; `none` where the lookup leaves the region array. -/
def pmmFree (p : Pmm) (ptr : ℕ) : Option (PmmErrorCode × Pmm) :=
  match p.getRegionContainingPage ptr with
  | .found i => some (.ok, (p.markPageFree i ptr).2)
  | .notFound => some (.addressNotFound, p)
  | .outOfBounds => none

/-- `PMM_PAGE_FREE`. The function below returns a masked byte as a
`pmm_page_status_t`, so a status is a number and not one of three names. -/
abbrev pmmPageFree : ℕ := 0

/-- `PMM_PAGE_USED` -/
abbrev pmmPageUsed : ℕ := 1

/-- `PMM_PAGE_NOT_FOUND` -/
abbrev pmmPageNotFound : ℕ := 2

/-- `pmm_check_page`; `none` where the lookup leaves the region array. -/
def pmmCheckPage (p : Pmm) (ptr : ℕ) : Option ℕ :=
  match p.getRegionContainingPage ptr with
  | .found i =>
    let pageIndex := (p.regions i).pageOf ptr
    some (p.bitmapByte i (pageIndex / 8) &&& 1#8 <<< (pageIndex % 8)).toNat
  | .notFound => some pmmPageNotFound
  | .outOfBounds => none

/-! ## Marking a page through the array -/

namespace Pmm

theorem withRegion_self (p : Pmm) (i : ℕ) : p.withRegion i (p.regions i) p.mem = p := by
  unfold withRegion
  rw [Function.update_eq_self]

/-- Assign to the counter of region `i` and to the memory. -/
def withFreePages (p : Pmm) (i freePages : ℕ) (mem : ByteMemory) : Pmm :=
  p.withRegion i { p.regions i with freePages := freePages } mem

section WithFreePages

variable (p : Pmm) (i f : ℕ) (mem : ByteMemory)

@[simp] theorem mem_withFreePages : (p.withFreePages i f mem).mem = mem := rfl

theorem regions_withFreePages_self :
    (p.withFreePages i f mem).regions i = { p.regions i with freePages := f } :=
  Function.update_self _ _ _

theorem regions_withFreePages_of_ne {j : ℕ} (h : j ≠ i) :
    (p.withFreePages i f mem).regions j = p.regions j :=
  Function.update_of_ne h _ _

/-- Only the counter of a region changes. -/
theorem regions_withFreePages (j : ℕ) : ∃ g, (p.withFreePages i f mem).regions j
    = { p.regions j with freePages := g } := by
  by_cases h : j = i
  · subst h
    exact ⟨f, p.regions_withFreePages_self j f mem⟩
  · exact ⟨_, p.regions_withFreePages_of_ne i f mem h⟩

@[simp] theorem bitmap_withFreePages (j : ℕ) :
    ((p.withFreePages i f mem).regions j).bitmap = (p.regions j).bitmap := by
  obtain ⟨g, hg⟩ := p.regions_withFreePages i f mem j
  rw [hg]

@[simp] theorem bitmapSize_withFreePages (j : ℕ) :
    ((p.withFreePages i f mem).regions j).bitmapSize = (p.regions j).bitmapSize := by
  obtain ⟨g, hg⟩ := p.regions_withFreePages i f mem j
  rw [hg]

@[simp] theorem bitmapByte_withFreePages (j b : ℕ) :
    (p.withFreePages i f mem).bitmapByte j b = Bitmap.byteAt mem (p.regions j).bitmap b := by
  unfold bitmapByte
  rw [mem_withFreePages, bitmap_withFreePages]

@[simp] theorem pageBit_withFreePages (j k : ℕ) :
    (p.withFreePages i f mem).pageBit j k = Bitmap.bitAt mem (p.regions j).bitmap k := by
  unfold pageBit
  rw [mem_withFreePages, bitmap_withFreePages]

theorem withFreePages_withFreePages (g : ℕ) (mem' : ByteMemory) :
    (p.withFreePages i f mem).withFreePages i g mem' = p.withFreePages i g mem' := by
  rw [withFreePages, regions_withFreePages_self]
  unfold withFreePages withRegion
  dsimp only
  rw [Function.update_idem]

end WithFreePages

/-- The state in which a page of region `i` has been marked as used. -/
def withPageUsed (p : Pmm) (i k : ℕ) : Pmm :=
  p.withFreePages i (((p.regions i).freePages + 2 ^ 64 - 1) % 2 ^ 64)
    (Bitmap.setBit p.mem (p.regions i).bitmap k)

/-- The state in which a page of region `i` has been marked as free. -/
def withPageFree (p : Pmm) (i k : ℕ) : Pmm :=
  p.withFreePages i (((p.regions i).freePages + 1) % 2 ^ 64)
    (Bitmap.clearBit p.mem (p.regions i).bitmap k)

/-- **Marking a page as used**: rejected without an effect, or done. -/
theorem markPageUsed_eq (p : Pmm) (i a : ℕ) : p.markPageUsed i a
    = if (p.regions i).Rejects a then (.error, p)
      else (.ok, p.withPageUsed i ((p.regions i).pageOf a)) := by
  unfold markPageUsed
  split
  · next h =>
    rw [pmmRegionMarkPageUsed_of_rejects _ _ _ h]
    exact congrArg (Prod.mk _) (p.withRegion_self i)
  · next h =>
    rw [pmmRegionMarkPageUsed_of_not_rejects _ _ _ h]
    rfl

/-- **Marking a page as free**: rejected without an effect, or done. -/
theorem markPageFree_eq (p : Pmm) (i a : ℕ) : p.markPageFree i a
    = if (p.regions i).Rejects a then (.error, p)
      else (.ok, p.withPageFree i ((p.regions i).pageOf a)) := by
  unfold markPageFree
  split
  · next h =>
    rw [pmmRegionMarkPageFree_of_rejects _ _ _ h]
    exact congrArg (Prod.mk _) (p.withRegion_self i)
  · next h =>
    rw [pmmRegionMarkPageFree_of_not_rejects _ _ _ h]
    rfl

end Pmm
