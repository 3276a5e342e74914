import Joes.PmmLayout
import Joes.PmmLookup

/-!
# Where `pmm_alloc` stops, and what `pmm_free` finds

The search of `pmm_alloc` is described without its loops. The rounds visit a
sequence of regions that depends on nothing but the counters (`visited`), and
the search stops at the first byte in that order that is not full
(`OpenByteAt`), at its lowest clear bit. What the allocator does to the bitmap
is one bit, and nothing if that bit stands for no page of the region
(`pmmAlloc_of_stopsAtPage`).

For the regions of a memory map the lookup of `pmm_free` ends at the region of
an address, or at an empty one at the address 0 (`pmmFree_of_mem`).
-/

namespace Pmm

/-! ## The byte of a bitmap -/

/-- The lowest clear bit of a byte. -/
structure IsLowestClearBit (byte : BitVec 8) (k : ℕ) : Prop where
  /-- It is a bit of the byte. -/
  lt : k < 8
  /-- It is clear. -/
  clear : byte.getLsbD k = false
  /-- The bits below it are set. -/
  below : ∀ l < k, byte.getLsbD l = true

theorem searchByte_eq_some {byte : BitVec 8} {k : ℕ} (h : searchByte byte = some k) :
    IsLowestClearBit byte k := by
  obtain ⟨hk, hlt, hbelow⟩ := List.find?_range_eq_some.mp h
  have hk8 : k < 8 := List.mem_range.mp hlt
  refine ⟨hk8, (Bitmap.and_bit_eq_zero_iff byte hk8).mp (of_decide_eq_true hk), fun l hl => ?_⟩
  have hset := hbelow l hl
  rw [Bool.not_eq_true', decide_eq_false_iff_not, Bitmap.and_bit_eq_zero_iff byte (by omega),
    Bool.not_eq_false] at hset
  exact hset

theorem exists_searchByte_eq_some {byte : BitVec 8} (h : byte ≠ uint8Max) :
    ∃ k, searchByte byte = some k := by
  rw [← Option.isSome_iff_exists]
  unfold searchByte
  rw [List.find?_isSome]
  obtain ⟨k, hk, hclear⟩ := Bitmap.exists_clear_of_ne_allOnes h
  refine ⟨k, List.mem_range.mpr hk, decide_eq_true ?_⟩
  rw [Bitmap.and_bit_eq_zero_iff byte hk]
  exact hclear

/-! ## The bytes of a region -/

/-- Byte number `j` in the order of the search is the first one of region `i`
that is not full. -/
structure IsFirstOpen (p : Pmm) (i j : ℕ) : Prop where
  /-- It is a round of the loop. -/
  lt : j < (p.regions i).bitmapSize
  /-- The byte has a clear bit. -/
  isOpen : p.bitmapByte i (p.bitmapIndex i j) ≠ uint8Max
  /-- The ones before it have none. -/
  before : ∀ l < j, p.bitmapByte i (p.bitmapIndex i l) = uint8Max

/-- Every byte of region `i` that the first `t` rounds look at is full. -/
def FullUpTo (p : Pmm) (i t : ℕ) : Prop :=
  ∀ l < t, p.bitmapByte i (p.bitmapIndex i l) = uint8Max

/-- **The search of one bitmap**: it changes nothing, or stops at the first
byte that is not full. -/
theorem searchBitmap_cases (p : Pmm) {i t : ℕ} (ht : t ≤ (p.regions i).bitmapSize) :
    (p.searchBitmap i t = (none, p) ∧ p.FullUpTo i t) ∨
    ∃ j k, p.IsFirstOpen i j ∧ IsLowestClearBit (p.bitmapByte i (p.bitmapIndex i j)) k
      ∧ p.searchBitmap i t
        = (some ⟨i, p.bitmapIndex i j, k⟩, { p with bitmapCache := p.bitmapIndex i j }) := by
  induction t with
  | zero => exact Or.inl ⟨rfl, fun l hl => absurd hl (Nat.not_lt_zero l)⟩
  | succ t ih =>
    obtain ⟨hnone, hfull⟩ | ⟨j, k, hj, hk, hsome⟩ := ih (by omega)
    · rw [searchBitmap, hnone]
      dsimp only
      by_cases hbyte : p.bitmapByte i (p.bitmapIndex i t) = uint8Max
      · rw [if_pos hbyte]
        refine Or.inl ⟨rfl, fun l hl => ?_⟩
        obtain hlt | rfl := Nat.lt_succ_iff_lt_or_eq.mp hl
        · exact hfull l hlt
        · exact hbyte
      · rw [if_neg hbyte]
        obtain ⟨k, hk⟩ := exists_searchByte_eq_some hbyte
        rw [hk]
        exact Or.inr ⟨t, k, ⟨ht, hbyte, hfull⟩, searchByte_eq_some hk, rfl⟩
    · rw [searchBitmap, hsome]
      exact Or.inr ⟨j, k, hj, hk, rfl⟩

/-! ## The regions in the order of the search -/

/-- `region_cache` after `t` rounds in which no page was found. -/
def cacheAfter (p : Pmm) : ℕ → ℕ
  | 0 => p.regionCache
  | t + 1 =>
    let i := (t + cacheAfter p t) % 2 ^ 64 % p.numRegions
    if (p.regions i).freePages = 0 then cacheAfter p t else i

/-- The region that round `t` looks at, if no page was found before. -/
def visited (p : Pmm) (t : ℕ) : ℕ := (t + p.cacheAfter t) % 2 ^ 64 % p.numRegions

/-- **The search stops in round `t`** over the regions, at byte number `j` of
the region visited then. -/
structure OpenByteAt (p : Pmm) (t j : ℕ) : Prop where
  /-- It is a round of the loop. -/
  lt : t < p.numRegions
  /-- The region counts free pages. -/
  free : (p.regions (p.visited t)).freePages ≠ 0
  /-- The byte is the first one of it that is not full. -/
  isFirst : p.IsFirstOpen (p.visited t) j
  /-- The regions visited before count no free page or have no clear bit. -/
  before : ∀ s < t, (p.regions (p.visited s)).freePages ≠ 0 →
    p.FullUpTo (p.visited s) (p.regions (p.visited s)).bitmapSize

/-- **The first open byte**: byte `b` of region `i` is the one that the search
stops at. -/
def FirstOpenByte (p : Pmm) (i b : ℕ) : Prop :=
  ∃ t j, p.OpenByteAt t j ∧ i = p.visited t ∧ b = p.bitmapIndex i j

/-- The state with other caches. -/
def withCaches (p : Pmm) (regionCache bitmapCache : ℕ) : Pmm :=
  { p with regionCache := regionCache, bitmapCache := bitmapCache }

/-- **The search of all regions**: it updates the region cache only, or stops
at the first open byte. -/
theorem searchRegions_cases (p : Pmm) {t : ℕ} (ht : t ≤ p.numRegions) :
    (p.searchRegions t = (none, p.withCaches (p.cacheAfter t) p.bitmapCache)
      ∧ ∀ s < t, (p.regions (p.visited s)).freePages ≠ 0 →
        p.FullUpTo (p.visited s) (p.regions (p.visited s)).bitmapSize) ∨
    ∃ i b k rc bc, p.FirstOpenByte i b ∧ IsLowestClearBit (p.bitmapByte i b) k
      ∧ p.searchRegions t = (some ⟨i, b, k⟩, p.withCaches rc bc) := by
  induction t with
  | zero => exact Or.inl ⟨rfl, fun l hl => absurd hl (Nat.not_lt_zero l)⟩
  | succ t ih =>
    obtain ⟨hnone, hfull⟩ | ⟨i, b, k, rc, bc, hfirst, hk, hsome⟩ := ih (by omega)
    · rw [searchRegions, hnone]
      dsimp only
      have hvisit : (p.withCaches (p.cacheAfter t) p.bitmapCache).regionIndex t = p.visited t := rfl
      have hregions : (p.withCaches (p.cacheAfter t) p.bitmapCache).regions = p.regions := rfl
      rw [hvisit, hregions]
      by_cases hfree : (p.regions (p.visited t)).freePages = 0
      · rw [if_pos hfree]
        have hcache : p.cacheAfter (t + 1) = p.cacheAfter t := if_pos hfree
        rw [hcache]
        refine Or.inl ⟨rfl, fun s hs hfs => ?_⟩
        obtain hlt | rfl := Nat.lt_succ_iff_lt_or_eq.mp hs
        · exact hfull s hlt hfs
        · exact absurd hfree hfs
      · rw [if_neg hfree]
        have hcache : p.cacheAfter (t + 1) = p.visited t := if_neg hfree
        rw [hcache]
        -- the search of the bitmap does not look at the region cache
        obtain ⟨hnone', hfull'⟩ | ⟨j, k, hj, hk, hsome'⟩ :=
          searchBitmap_cases (p.withCaches (p.visited t) p.bitmapCache) (i := p.visited t) le_rfl
        · refine Or.inl ⟨hnone', fun s hs hfs => ?_⟩
          obtain hlt | rfl := Nat.lt_succ_iff_lt_or_eq.mp hs
          · exact hfull s hlt hfs
          · exact hfull'
        · exact Or.inr ⟨p.visited t, p.bitmapIndex (p.visited t) j, k, p.visited t, _,
            ⟨t, j, ⟨ht, hfree, ⟨hj.lt, hj.isOpen, hj.before⟩, hfull⟩, rfl, rfl⟩, hk, hsome'⟩
    · rw [searchRegions, hsome]
      exact Or.inr ⟨i, b, k, rc, bc, hfirst, hk, rfl⟩

namespace FirstOpenByte

variable {p : Pmm} {i b : ℕ}

theorem region_lt (h : p.FirstOpenByte i b) : i < p.numRegions := by
  obtain ⟨t, j, ht, rfl, -⟩ := h
  exact Nat.mod_lt _ (Nat.zero_lt_of_lt ht.lt)

theorem byte_lt (h : p.FirstOpenByte i b) : b < (p.regions i).bitmapSize := by
  obtain ⟨t, j, ht, rfl, rfl⟩ := h
  exact Nat.mod_lt _ (Nat.zero_lt_of_lt ht.isFirst.lt)

theorem isOpen (h : p.FirstOpenByte i b) : p.bitmapByte i b ≠ uint8Max := by
  obtain ⟨t, j, ht, rfl, rfl⟩ := h
  exact ht.isFirst.isOpen

end FirstOpenByte

/-! ## The page handed out -/

/-- **A call of `pmm_alloc`**: it returns `NULL` and changes the caches only,
or it takes the lowest clear bit of the first open byte. -/
theorem pmmAlloc_cases (p : Pmm) :
    (∃ rc bc, pmmAlloc p = (0, p.withCaches rc bc)) ∨
    ∃ i b k rc bc, p.FirstOpenByte i b ∧ IsLowestClearBit (p.bitmapByte i b) k
      ∧ pmmAlloc p = ((p.regions i).pageAddress (b * 8 + k),
          ((p.withCaches rc bc).markPageUsed i ((p.regions i).pageAddress (b * 8 + k))).2) := by
  unfold pmmAlloc
  obtain ⟨hnone, -⟩ | ⟨i, b, k, rc, bc, hfirst, hk, hsome⟩ := p.searchRegions_cases le_rfl
  · rw [hnone]
    exact Or.inl ⟨_, _, rfl⟩
  · rw [hsome]
    exact Or.inr ⟨i, b, k, rc, bc, hfirst, hk, rfl⟩

/-- **The search stops at a page**: the first open byte has a clear bit that
stands for a page of its region, so the lowest clear bit does. The bits of the
last byte beyond the region's last page are clear from the start. -/
def StopsAtPage (p : Pmm) : Prop :=
  ∀ i b, p.FirstOpenByte i b → ∃ k < 8, b * 8 + k < (p.regions i).length / 4096
    ∧ p.pageBit i (b * 8 + k) = false

/-- The lowest clear bit is below every clear bit. -/
theorem IsLowestClearBit.le {byte : BitVec 8} {k l : ℕ} (h : IsLowestClearBit byte k)
    (hl : byte.getLsbD l = false) : k ≤ l := by
  by_contra hlt
  have hset := h.below l (by omega)
  rw [hl] at hset
  exact Bool.false_ne_true hset

end Pmm

/-- The layout says nothing of the caches. -/
theorem HasLayout.withCaches {m : Memmap} {p : Pmm} (h : HasLayout m p) (rc bc : ℕ) :
    HasLayout m (p.withCaches rc bc) :=
  ⟨h.numRegions_eq, h.base_eq, h.length_eq, h.type_eq, h.bitmapSize_eq, h.bitmap_eq⟩

namespace HasLayout

variable {m : Memmap} {p : Pmm}

/-- The address of a page of a region. -/
theorem pageAddress_eq (h : HasLayout m p) {i k : ℕ} (hi : i < m.entryCount)
    (hk : k < m.pages i) : (p.regions i).pageAddress k = m.pageAddress i k := by
  have hend := m.bounded i hi
  unfold Memmap.pages at hk
  unfold PmmRegion.pageAddress Memmap.pageAddress
  rw [h.base_eq i hi]
  omega

/-- An address inside a page belongs to that page, and is not rejected. -/
theorem not_rejects (h : HasLayout m p) {i k a : ℕ} (hi : i < m.entryCount) (hk : k < m.pages i)
    (ha : m.pageAddress i k ≤ a) (ha' : a < m.pageAddress i k + 4096) :
    ¬ (p.regions i).Rejects a ∧ (p.regions i).pageOf a = k := by
  have hend := m.bounded i hi
  unfold Memmap.pages at hk
  unfold Memmap.pageAddress at ha ha'
  unfold PmmRegion.Rejects PmmRegion.pageOf
  rw [h.base_eq i hi, h.length_eq i hi]
  constructor
  · omega
  · omega

/-- **A call of `pmm_alloc` that stops at a page**: the page is one of a
region, its bit was clear, and it is marked as used. -/
theorem pmmAlloc_of_stopsAtPage (h : HasLayout m p) (hs : p.StopsAtPage) :
    (∃ rc bc, pmmAlloc p = (0, p.withCaches rc bc)) ∨
    ∃ i k rc bc, i < m.entryCount ∧ k < m.pages i ∧ k / 8 < (p.regions i).bitmapSize
      ∧ p.pageBit i k = false
      ∧ pmmAlloc p = (m.pageAddress i k, (p.withCaches rc bc).withPageUsed i k) := by
  obtain hnull | ⟨i, b, k, rc, bc, hfirst, hk, halloc⟩ := p.pmmAlloc_cases
  · exact Or.inl hnull
  · right
    have hi : i < m.entryCount := by
      rw [← h.numRegions_eq]
      exact hfirst.region_lt
    have hb := hfirst.byte_lt
    obtain ⟨l, hl8, hl, hclear⟩ := hs i b hfirst
    rw [Pmm.pageBit_mul_add _ _ _ hl8] at hclear
    have hkl : k ≤ l := hk.le hclear
    have hpage : b * 8 + k < m.pages i := by
      rw [h.length_eq i hi] at hl
      unfold Memmap.pages
      omega
    have hk8 := hk.lt
    obtain ⟨hrej, hpageOf⟩ := (h.withCaches rc bc).not_rejects hi hpage le_rfl
      (Nat.lt_add_of_pos_right (by norm_num))
    refine ⟨i, b * 8 + k, rc, bc, hi, hpage, by omega, ?_, ?_⟩
    · rw [Pmm.pageBit_mul_add _ _ _ hk8]
      exact hk.clear
    · rw [halloc, h.pageAddress_eq hi hpage, Pmm.markPageUsed_eq, if_neg hrej, hpageOf]

/-- **Maps without spare bits.** Where every region has a number of pages that is
a multiple of eight, the search always stops at a page. -/
theorem stopsAtPage_of_dvd (h : HasLayout m p)
    (hdvd : ∀ i < m.entryCount, (m.entries i).length < 2 ^ 63 ∧ 8 ∣ m.pages i) :
    p.StopsAtPage := by
  intro i b hfirst
  have hi : i < m.entryCount := by
    rw [← h.numRegions_eq]
    exact hfirst.region_lt
  have hb := hfirst.byte_lt
  obtain ⟨hlt, hpages⟩ := hdvd i hi
  rw [h.bitmapSize_eq i hi, regionBitmapSize_of_lt hlt] at hb
  unfold Memmap.pages at hpages
  obtain ⟨k, hk, hclear⟩ := Bitmap.exists_clear_of_ne_allOnes hfirst.isOpen
  refine ⟨k, hk, ?_, ?_⟩
  · rw [h.length_eq i hi]
    omega
  · rw [Pmm.pageBit_mul_add _ _ _ hk]
    exact hclear

end HasLayout

/-- A map with eight pages has no spare bits. -/
theorem singleEntryMap_dvd : ∀ i < (singleEntryMap 8).entryCount,
    ((singleEntryMap 8).entries i).length < 2 ^ 63 ∧ 8 ∣ (singleEntryMap 8).pages i := by
  intro i _
  constructor
  · show 8 * 4096 < 2 ^ 63
    norm_num
  · show 8 ∣ 8 * 4096 / 4096
    norm_num

/-! ## The region of an address -/

/-- The regions of a map are sorted. -/
theorem HasLayout.regionsSorted {m : Memmap} {p : Pmm} (h : HasLayout m p) : p.RegionsSorted := by
  constructor
  · have hcount := m.entryCount_le
    rw [h.numRegions_eq]
    unfold sizeofPmmRegion
    omega
  · intro i j hij hj
    rw [h.numRegions_eq] at hj
    rw [h.base_eq i (lt_trans hij hj), h.length_eq i (lt_trans hij hj), h.base_eq j hj]
    exact m.sorted i j hij hj
  · intro i hi
    rw [h.numRegions_eq] at hi
    rw [h.base_eq i hi, h.length_eq i hi]
    exact (m.bounded i hi).le

namespace HasLayout

variable {m : Memmap} {p : Pmm}

/-- **The lookup finds the region of an address**, or the empty region at the
address 0. -/
theorem getRegionContainingPage_of_mem (h : HasLayout m p) {a i : ℕ} (hi : i < m.entryCount)
    (ha : (m.entries i).base ≤ a) (ha' : a < (m.entries i).base + (m.entries i).length) :
    ∃ j, p.getRegionContainingPage a = .found j
      ∧ (j = i ∨ j < i ∧ (m.entries j).base = 0 ∧ (m.entries j).length = 0) := by
  have hmem : a ∈ p.regions i := by
    rw [PmmRegion.mem_def, h.base_eq i hi, h.length_eq i hi]
    exact ⟨ha, ha'⟩
  have hi' : i < p.numRegions := by
    rw [h.numRegions_eq]
    exact hi
  have hle : p.regionFound i ≤ i := h.regionsSorted.regionFound_le hi' hmem
  refine ⟨_, h.regionsSorted.getRegionContainingPage_of_mem hi' hmem, ?_⟩
  obtain heq | hzero := p.regionFound_cases i
  · exact Or.inl heq
  · unfold PmmRegion.EmptyAtZero at hzero
    have hlt : p.regionFound i < m.entryCount := lt_of_le_of_lt hle hi
    rw [h.base_eq _ hlt, h.length_eq _ hlt] at hzero
    obtain hlt' | heq := Nat.lt_or_eq_of_le hle
    · exact Or.inr ⟨hlt', by omega, by omega⟩
    · exact Or.inl heq

/-- **A call of `pmm_free` for an address in page `k` of region `i`**: the page
is marked as free. Only where an empty region lies at the address 0 can the
call go astray: it then has no effect, unless the address is 0 itself. -/
theorem pmmFree_of_mem (h : HasLayout m p) {a i k : ℕ} (hi : i < m.entryCount)
    (hk : k < m.pages i) (ha : m.pageAddress i k ≤ a) (ha' : a < m.pageAddress i k + 4096) :
    pmmFree p a = some (.ok, p.withPageFree i k) ∨
    ∃ j < i, (m.entries j).base = 0 ∧ (m.entries j).length = 0 ∧
      (pmmFree p a = some (.ok, p)
        ∨ (m.entries i).base = 0 ∧ k = 0 ∧ pmmFree p a = some (.ok, p.withPageFree j 0)) := by
  have hin : (m.entries i).base ≤ a ∧ a < (m.entries i).base + (m.entries i).length := by
    unfold Memmap.pageAddress at ha ha'
    unfold Memmap.pages at hk
    omega
  obtain ⟨j, hj, rfl | ⟨hji, hbase, hlength⟩⟩ := h.getRegionContainingPage_of_mem hi hin.1 hin.2
  · left
    obtain ⟨hrej, hpage⟩ := h.not_rejects hi hk ha ha'
    unfold pmmFree
    rw [hj]
    dsimp only
    rw [Pmm.markPageFree_eq, if_neg hrej, hpage]
  · refine Or.inr ⟨j, hji, hbase, hlength, ?_⟩
    have hjn : j < m.entryCount := lt_trans hji hi
    unfold pmmFree
    rw [hj]
    dsimp only
    rw [Pmm.markPageFree_eq]
    by_cases hrej : (p.regions j).Rejects a
    · rw [if_pos hrej]
      exact Or.inl rfl
    · rw [if_neg hrej]
      unfold PmmRegion.Rejects at hrej
      rw [h.base_eq j hjn, h.length_eq j hjn, hbase, hlength] at hrej
      have hzero : a = 0 := by omega
      have hpage : (p.regions j).pageOf a = 0 := by
        unfold PmmRegion.pageOf
        rw [hzero, h.base_eq j hjn, hbase]
      rw [hpage]
      unfold Memmap.pageAddress at ha
      exact Or.inr ⟨by omega, by omega, rfl⟩

end HasLayout
