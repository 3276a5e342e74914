import Joes.PmmSearch

/-!
# `pmm_alloc` on a consistent state

Where every region counts the clear bits of its bitmap, and every clear bit
stands for a page of the region (`Consistent`), the search of `pmm_alloc` is
complete: the first region in its order that counts a free page has one, and
the bytes of the bitmap are all visited from wherever the cache of the last
call points to. So the assignment to `region_cache` inside the loop that reads
it does no harm; the search ends in the same round.

Two things can still go wrong behind the search. The address of the page is
returned as a pointer, and page 0 of a region at the address 0 is `NULL`. And a
region that ends at the end of the address space has an end of 0 for
`pmm_region_mark_page_used`, which then rejects all its addresses, and
`pmm_alloc` does not look at the error. `pmmAlloc_allocatesPage_iff` says that
there is nothing else.
-/

namespace Pmm

/-! ## The remainders -/

/-- A remainder of the source, undefined for a divisor of zero. -/
def remainder (a b : ℕ) : Option ℕ := if b = 0 then none else some (a % b)

/-- `searchBitmap` with the remainders of the source. -/
def searchBitmapChecked (p : Pmm) (i : ℕ) : ℕ → Option (Option PageSlot × Pmm)
  | 0 => some (none, p)
  | t + 1 => do
    match ← searchBitmapChecked p i t with
    | (none, p') =>
      let b ← remainder ((t + p'.bitmapCache) % 2 ^ 64) (p'.regions i).bitmapSize
      if p'.bitmapByte i b = uint8Max then
        pure (none, p')
      else
        pure ((searchByte (p'.bitmapByte i b)).map fun k => ⟨i, b, k⟩, { p' with bitmapCache := b })
    | found => pure found

/-- `searchRegions` with the remainders of the source. -/
def searchRegionsChecked (p : Pmm) : ℕ → Option (Option PageSlot × Pmm)
  | 0 => some (none, p)
  | t + 1 => do
    match ← searchRegionsChecked p t with
    | (none, p') =>
      let i ← remainder ((t + p'.regionCache) % 2 ^ 64) p'.numRegions
      if (p'.regions i).freePages = 0 then
        pure (none, p')
      else
        let p'' := { p' with regionCache := i }
        p''.searchBitmapChecked i (p''.regions i).bitmapSize
    | found => pure found

/-- A loop over the bytes of a bitmap divides by their number. -/
theorem searchBitmapChecked_eq (p : Pmm) {i t : ℕ} (ht : t ≤ (p.regions i).bitmapSize) :
    p.searchBitmapChecked i t = some (p.searchBitmap i t) := by
  induction t with
  | zero => rfl
  | succ t ih =>
    have hsize : (p.regions i).bitmapSize ≠ 0 := by omega
    rw [searchBitmapChecked, ih (by omega), searchBitmap]
    obtain ⟨hnone, -⟩ | ⟨j, k, -, -, hsome⟩ := p.searchBitmap_cases (Nat.le_of_succ_le ht)
    · rw [hnone]
      simp only [Option.bind_eq_bind, Option.bind_some, remainder, if_neg hsize]
      exact (apply_ite some _ _ _).symm
    · rw [hsome]
      rfl

/-- **No remainder is by zero.** The loop over the regions divides by their
number, and the loop over the bytes by theirs. -/
theorem searchRegionsChecked_eq (p : Pmm) {t : ℕ} (ht : t ≤ p.numRegions) :
    p.searchRegionsChecked t = some (p.searchRegions t) := by
  induction t with
  | zero => rfl
  | succ t ih =>
    rw [searchRegionsChecked, ih (by omega), searchRegions]
    obtain ⟨hnone, -⟩ | ⟨i, b, k, rc, bc, -, -, hsome⟩ :=
      p.searchRegions_cases (Nat.le_of_succ_le ht)
    · have hn : (p.withCaches (p.cacheAfter t) p.bitmapCache).numRegions ≠ 0 := by
        show p.numRegions ≠ 0
        omega
      rw [hnone]
      simp only [Option.bind_eq_bind, Option.bind_some, remainder, if_neg hn,
        searchBitmapChecked_eq _ le_rfl]
      exact (apply_ite some _ _ _).symm
    · rw [hsome]
      rfl

/-! ## A consistent state -/

/-- **The values are 64-bit ones, and the array and the bitmaps are objects in
memory**, no byte of which belongs to two bitmaps. -/
structure WellPlaced (p : Pmm) : Prop where
  /-- The array fits the address space. -/
  array_le : p.numRegions * sizeofPmmRegion ≤ 2 ^ 64
  /-- A base is an address. -/
  base_lt : ∀ i < p.numRegions, (p.regions i).base < 2 ^ 64
  /-- A length is a 64-bit value. -/
  length_lt : ∀ i < p.numRegions, (p.regions i).length < 2 ^ 64
  /-- A bitmap fits the address space. -/
  bitmapSize_le : ∀ i < p.numRegions, (p.regions i).bitmapSize ≤ 2 ^ 64
  /-- Bytes of two bitmaps are two bytes. -/
  apart : ∀ i < p.numRegions, ∀ j < p.numRegions, i ≠ j →
    ∀ b < (p.regions i).bitmapSize, ∀ c < (p.regions j).bitmapSize,
      Bitmap.byteAddress (p.regions i).bitmap b ≠ Bitmap.byteAddress (p.regions j).bitmap c

/-- **The counters are those of the bitmaps**, and the clear bits are pages. -/
structure Consistent (p : Pmm) : Prop where
  /-- A region counts the clear bits of its bitmap. -/
  freePages_eq : ∀ i < p.numRegions, (p.regions i).freePages
    = Bitmap.clearCount p.mem (p.regions i).bitmap (8 * (p.regions i).bitmapSize)
  /-- A clear bit stands for a page of the region. -/
  clear_lt : ∀ i < p.numRegions, ∀ k < 8 * (p.regions i).bitmapSize,
    p.pageBit i k = false → k < (p.regions i).length / 4096

/-- **The caches of an earlier call**: any region, and any byte from which the
loop over a bitmap does not run over the end of the numbers. -/
structure CachesOk (p : Pmm) : Prop where
  /-- The region exists, if there is one. -/
  regionCache_lt : p.numRegions ≠ 0 → p.regionCache < p.numRegions
  /-- The sum of the loop does not wrap around. -/
  bitmapCache_le : ∀ i < p.numRegions, p.bitmapCache + (p.regions i).bitmapSize ≤ 2 ^ 64

/-- **Two states that differ in one page**: its bit, the counter of its region,
and the caches. -/
structure ChangesPage (p : Pmm) (i k : ℕ) (value : Bool) (freePages : ℕ) (q : Pmm) : Prop where
  /-- The bit of the page. -/
  bit_eq : q.pageBit i k = value
  /-- The other bits of the bitmaps are as they were. -/
  otherBit_eq : ∀ j < p.numRegions, ∀ l < 8 * (p.regions j).bitmapSize, ¬ (j = i ∧ l = k) →
    q.pageBit j l = p.pageBit j l
  /-- So is the memory outside the byte of the bit. -/
  otherByte_eq : ∀ x, x ≠ Bitmap.byteAddress (p.regions i).bitmap (k / 8) → q.mem x = p.mem x
  /-- The counter of the region. -/
  region_eq : q.regions i = { p.regions i with freePages := freePages }
  /-- The other regions are as they were. -/
  otherRegion_eq : ∀ j ≠ i, q.regions j = p.regions j
  /-- So are the other variables. -/
  frame : q = { p with
    regions := q.regions
    mem := q.mem
    regionCache := q.regionCache
    bitmapCache := q.bitmapCache }

namespace WellPlaced

variable {p : Pmm}

/-- The bits of two pages are two bits. -/
theorem bitNe (h : p.WellPlaced) {i j k l : ℕ} (hi : i < p.numRegions) (hj : j < p.numRegions)
    (hk : k < 8 * (p.regions i).bitmapSize) (hl : l < 8 * (p.regions j).bitmapSize)
    (hne : ¬ (j = i ∧ l = k)) : Bitmap.BitNe (p.regions i).bitmap k (p.regions j).bitmap l := by
  by_cases hij : j = i
  · subst hij
    have hsize := h.bitmapSize_le j hj
    exact Bitmap.bitNe_of_ne (by omega) (by omega) fun e => hne ⟨rfl, e⟩
  · exact Or.inl (h.apart j hj i hi hij _ (by omega) _ (by omega))

/-- Marking a page as used changes that page. -/
theorem withPageUsed (h : p.WellPlaced) {i k : ℕ} (hi : i < p.numRegions)
    (hk : k < 8 * (p.regions i).bitmapSize) (rc bc : ℕ) :
    p.ChangesPage i k true (((p.regions i).freePages + 2 ^ 64 - 1) % 2 ^ 64)
      ((p.withCaches rc bc).withPageUsed i k) := by
  constructor
  · exact (pageBit_withFreePages _ _ _ _ _ _).trans (Bitmap.bitAt_setBit_self _ _ _)
  · intro j hj l hl hne
    exact (pageBit_withFreePages _ _ _ _ _ _).trans
      (Bitmap.bitAt_setBit_of_ne (h.bitNe hi hj hk hl hne))
  · intro x hx
    exact Function.update_of_ne hx _ _
  · exact regions_withFreePages_self _ _ _ _
  · intro j hj
    exact regions_withFreePages_of_ne _ _ _ _ hj
  · rfl

/-- Marking a page as free changes that page. -/
theorem withPageFree (h : p.WellPlaced) {i k : ℕ} (hi : i < p.numRegions)
    (hk : k < 8 * (p.regions i).bitmapSize) :
    p.ChangesPage i k false (((p.regions i).freePages + 1) % 2 ^ 64) (p.withPageFree i k) := by
  constructor
  · exact (pageBit_withFreePages _ _ _ _ _ _).trans (Bitmap.bitAt_clearBit_self _ _ _)
  · intro j hj l hl hne
    exact (pageBit_withFreePages _ _ _ _ _ _).trans
      (Bitmap.bitAt_clearBit_of_ne (h.bitNe hi hj hk hl hne))
  · intro x hx
    exact Function.update_of_ne hx _ _
  · exact regions_withFreePages_self _ _ _ _
  · intro j hj
    exact regions_withFreePages_of_ne _ _ _ _ hj
  · rfl

/-- **A region that runs up to the end of the address space or over it** has an
end below its base, and rejects every address. -/
theorem rejects_of_le (h : p.WellPlaced) {i : ℕ} (hi : i < p.numRegions)
    (hend : 2 ^ 64 ≤ (p.regions i).base + (p.regions i).length) (a : ℕ) :
    (p.regions i).Rejects a := by
  have hbase := h.base_lt i hi
  have hlength := h.length_lt i hi
  unfold PmmRegion.Rejects
  omega

end WellPlaced

/-- The address of a page of a region that ends before the end of the address
space, which is not rejected. -/
theorem pageAddress_of_lt {r : PmmRegion} {k : ℕ} (hend : r.base + r.length < 2 ^ 64)
    (hk : k < r.length / 4096) :
    r.pageAddress k = r.base + 4096 * k ∧ ¬ r.Rejects (r.pageAddress k)
      ∧ r.pageOf (r.pageAddress k) = k := by
  have haddr : r.pageAddress k = r.base + 4096 * k := by
    unfold PmmRegion.pageAddress
    omega
  rw [haddr]
  refine ⟨rfl, ?_, ?_⟩
  · unfold PmmRegion.Rejects
    omega
  · unfold PmmRegion.pageOf
    omega

/-- So the page that is marked as used is the one at the address. -/
theorem markPageUsed_pageAddress {p : Pmm} {i k : ℕ}
    (hend : (p.regions i).base + (p.regions i).length < 2 ^ 64)
    (hk : k < (p.regions i).length / 4096) (rc bc : ℕ) :
    (p.withCaches rc bc).markPageUsed i ((p.regions i).pageAddress k)
      = (.ok, (p.withCaches rc bc).withPageUsed i k) := by
  obtain ⟨-, hrej, hpageOf⟩ := pageAddress_of_lt hend hk
  have hrej' : ¬ ((p.withCaches rc bc).regions i).Rejects ((p.regions i).pageAddress k) := hrej
  have hpageOf' : ((p.withCaches rc bc).regions i).pageOf ((p.regions i).pageAddress k) = k :=
    hpageOf
  rw [markPageUsed_eq, if_neg hrej', hpageOf']

namespace Consistent

variable {p : Pmm}

/-- A counter is far from an overflow. -/
theorem freePages_lt (h : p.Consistent) (hp : p.WellPlaced) {i : ℕ} (hi : i < p.numRegions) :
    (p.regions i).freePages < 2 ^ 53 := by
  have hle := Bitmap.clearCount_le_of_clear_lt (h.clear_lt i hi)
  have hlength := hp.length_lt i hi
  rw [h.freePages_eq i hi]
  omega

/-- A region that counts free pages has one. -/
theorem exists_clear (h : p.Consistent) {i : ℕ} (hi : i < p.numRegions)
    (hfree : (p.regions i).freePages ≠ 0) :
    ∃ k < 8 * (p.regions i).bitmapSize, p.pageBit i k = false := by
  by_contra hall
  push Not at hall
  rw [h.freePages_eq i hi, Ne, Bitmap.clearCount_eq_zero_iff] at hfree
  exact hfree fun l hl => Bool.eq_true_of_not_eq_false (hall l hl)

end Consistent

/-! ## The order of the search -/

/-- Counting from anywhere, every remainder comes up. -/
theorem exists_add_mod_eq {n b : ℕ} (hb : b < n) (c : ℕ) : ∃ j < n, (j + c) % n = b := by
  have hc : c % n ≤ n := (Nat.mod_lt c (Nat.zero_lt_of_lt hb)).le
  refine ⟨(b + (n - c % n)) % n, Nat.mod_lt _ (Nat.zero_lt_of_lt hb), ?_⟩
  calc ((b + (n - c % n)) % n + c) % n
      = (b + (n - c % n) + c % n) % n := by rw [Nat.mod_add_mod, Nat.add_mod_mod]
    _ = (b + n) % n := by rw [Nat.add_assoc, Nat.sub_add_cancel hc]
    _ = b := by rw [Nat.add_mod_right, Nat.mod_eq_of_lt hb]

section Order

variable {p : Pmm}

/-- The loop over a bitmap looks at every byte of it. -/
theorem exists_bitmapIndex_eq (hc : p.CachesOk) {i b : ℕ} (hi : i < p.numRegions)
    (hb : b < (p.regions i).bitmapSize) :
    ∃ j < (p.regions i).bitmapSize, p.bitmapIndex i j = b := by
  have hcache := hc.bitmapCache_le i hi
  obtain ⟨j, hj, heq⟩ := exists_add_mod_eq hb p.bitmapCache
  have hsum : j + p.bitmapCache < 2 ^ 64 := by omega
  refine ⟨j, hj, ?_⟩
  unfold bitmapIndex
  rwa [Nat.mod_eq_of_lt hsum]

/-- The loop over the regions looks at every region. -/
theorem exists_regionIndex_eq (hp : p.WellPlaced) (hc : p.CachesOk) {i : ℕ}
    (hi : i < p.numRegions) : ∃ t < p.numRegions, p.regionIndex t = i := by
  have hcache := hc.regionCache_lt (Nat.ne_of_gt (Nat.zero_lt_of_lt hi))
  have harray := hp.array_le
  unfold sizeofPmmRegion at harray
  obtain ⟨t, ht, heq⟩ := exists_add_mod_eq hi p.regionCache
  have hsum : t + p.regionCache < 2 ^ 64 := by omega
  refine ⟨t, ht, ?_⟩
  unfold regionIndex
  rwa [Nat.mod_eq_of_lt hsum]

/-- **The search of a region with free pages ends there.** -/
theorem not_fullUpTo (h : p.Consistent) (hc : p.CachesOk) {i : ℕ} (hi : i < p.numRegions)
    (hfree : (p.regions i).freePages ≠ 0) : ¬ p.FullUpTo i (p.regions i).bitmapSize := by
  intro hfull
  obtain ⟨k, hk, hclear⟩ := h.exists_clear hi hfree
  obtain ⟨j, hj, hindex⟩ := exists_bitmapIndex_eq hc hi (show k / 8 < _ by omega)
  have hbyte := hfull j hj
  rw [hindex, Bitmap.eq_allOnes_iff] at hbyte
  have hset : p.pageBit i k = true := hbyte (k % 8) (Nat.mod_lt k (by norm_num))
  exact Bool.false_ne_true (hclear.symm.trans hset)

/-- The rounds before the first free page leave the cache alone. -/
theorem cacheAfter_eq {t : ℕ} (h : ∀ s < t, (p.regions (p.visited s)).freePages = 0) :
    p.cacheAfter t = p.regionCache := by
  induction t with
  | zero => rfl
  | succ t ih =>
    have hprev := ih fun s hs => h s (Nat.lt_succ_of_lt hs)
    rw [cacheAfter]
    exact (if_pos (h t (Nat.lt_succ_self t))).trans hprev

/-- So up to that round the search looks at the regions in their order from the
cache on. -/
theorem visited_eq {t s : ℕ} (h : ∀ s < t, (p.regions (p.visited s)).freePages = 0)
    (hs : s ≤ t) : p.visited s = p.regionIndex s := by
  unfold visited regionIndex
  rw [cacheAfter_eq fun r hr => h r (by omega)]

end Order

/-- Region `i` is the first one that counts a free page, from the region cache
on. -/
def IsFirstFree (p : Pmm) (i : ℕ) : Prop :=
  ∃ t < p.numRegions, i = p.regionIndex t ∧ (p.regions i).freePages ≠ 0
    ∧ ∀ s < t, (p.regions (p.regionIndex s)).freePages = 0

/-- **The next page**: the lowest clear bit of the first byte that is not full,
from the bitmap cache on, in the first region that counts a free page. -/
structure IsNextPage (p : Pmm) (i k : ℕ) : Prop where
  /-- The region. -/
  region : p.IsFirstFree i
  /-- The bit. -/
  bit : ∃ j l, p.IsFirstOpen i j ∧ IsLowestClearBit (p.bitmapByte i (p.bitmapIndex i j)) l
    ∧ k = p.bitmapIndex i j * 8 + l

/-- Two rounds, each the first one of a kind, are one round. -/
theorem eq_of_first (P : ℕ → Prop) {s t : ℕ} (hs : ¬ P s) (ht : ¬ P t) (hs' : ∀ r < s, P r)
    (ht' : ∀ r < t, P r) : s = t := by
  obtain hlt | heq | hgt := lt_trichotomy s t
  · exact absurd (ht' s hlt) hs
  · exact heq
  · exact absurd (hs' t hgt) ht

/-- There is one next page at most. -/
theorem IsNextPage.unique {p : Pmm} {i j k l : ℕ} (h : p.IsNextPage i k)
    (h' : p.IsNextPage j l) : i = j ∧ k = l := by
  obtain ⟨⟨t, -, rfl, hfree, hbefore⟩, ⟨b, x, hb, hx, rfl⟩⟩ := h
  obtain ⟨⟨t', -, rfl, hfree', hbefore'⟩, ⟨b', x', hb', hx', rfl⟩⟩ := h'
  obtain rfl := eq_of_first (fun r => (p.regions (p.regionIndex r)).freePages = 0)
    hfree hfree' hbefore hbefore'
  obtain rfl := eq_of_first
    (fun r => p.bitmapByte (p.regionIndex t) (p.bitmapIndex (p.regionIndex t) r) = uint8Max)
    hb.isOpen hb'.isOpen hb.before hb'.before
  have hle := hx.le hx'.clear
  have hle' := hx'.le hx.clear
  exact ⟨rfl, by omega⟩

/-! ## The allocation -/

/-- **A call of `pmm_alloc` on a consistent state**: no region counts a free
page and nothing happens, or the next page is marked as used. -/
theorem pmmAlloc_consistent {p : Pmm} (hp : p.WellPlaced) (h : p.Consistent) (hc : p.CachesOk) :
    ((∀ i < p.numRegions, (p.regions i).freePages = 0) ∧ pmmAlloc p = (0, p)) ∨
    ∃ i k rc bc, p.IsNextPage i k ∧ i < p.numRegions ∧ k < 8 * (p.regions i).bitmapSize
      ∧ p.pageBit i k = false
      ∧ pmmAlloc p = ((p.regions i).pageAddress k,
          ((p.withCaches rc bc).markPageUsed i ((p.regions i).pageAddress k)).2) := by
  have hvisited : ∀ s < p.numRegions, p.visited s < p.numRegions := fun s hs =>
    Nat.mod_lt _ (Nat.zero_lt_of_lt hs)
  unfold pmmAlloc
  obtain ⟨hnone, hfull⟩ | ⟨i, b, k, rc, bc, ⟨t, j, ht, rfl, rfl⟩, hk, hsome⟩ :=
    p.searchRegions_cases le_rfl
  · -- a region that counts a free page has an open byte, and the search found none
    left
    have hzero : ∀ s < p.numRegions, (p.regions (p.visited s)).freePages = 0 := by
      intro s hs
      by_contra hfree
      exact not_fullUpTo h hc (hvisited s hs) hfree (hfull s hs hfree)
    refine ⟨fun i hi => ?_, ?_⟩
    · obtain ⟨s, hs, rfl⟩ := exists_regionIndex_eq hp hc hi
      rw [← visited_eq hzero hs.le]
      exact hzero s hs
    · rw [hnone, cacheAfter_eq hzero]
      rfl
  · -- the regions before were passed without a free page, so the cache is the same
    right
    have hzero : ∀ s < t, (p.regions (p.visited s)).freePages = 0 := by
      intro s hs
      by_contra hfree
      exact not_fullUpTo h hc (hvisited s (lt_trans hs ht.lt)) hfree (ht.before s hs hfree)
    have hk8 := hk.lt
    have hbyte : p.bitmapIndex (p.visited t) j < (p.regions (p.visited t)).bitmapSize :=
      Nat.mod_lt _ (Nat.zero_lt_of_lt ht.isFirst.lt)
    rw [hsome]
    refine ⟨p.visited t, _, rc, bc, ⟨⟨t, ht.lt, visited_eq hzero le_rfl, ht.free, fun s hs => ?_⟩,
      ⟨j, k, ht.isFirst, hk, rfl⟩⟩, hvisited t ht.lt, by omega, ?_, rfl⟩
    · rw [← visited_eq hzero hs.le]
      exact hzero s hs
    · rw [pageBit_mul_add _ _ _ hk8]
      exact hk.clear

end Pmm

/-- `pmm_alloc` with the remainders of the source. -/
def pmmAllocChecked (p : Pmm) : Option (ℕ × Pmm) := do
  match ← p.searchRegionsChecked p.numRegions with
  | (some s, p') =>
    let ptr := (p'.regions s.region).pageAddress s.page
    pure (ptr, (p'.markPageUsed s.region ptr).2)
  | (none, p') => pure (0, p')

theorem pmmAllocChecked_eq (p : Pmm) : pmmAllocChecked p = some (pmmAlloc p) := by
  unfold pmmAllocChecked pmmAlloc
  rw [p.searchRegionsChecked_eq le_rfl]
  obtain ⟨found, p'⟩ := p.searchRegions p.numRegions
  cases found <;> rfl

namespace Pmm

/-- **What `pmm_alloc` promises**: `NULL` exactly if no region counts a free
page, and else a page that was free and is marked as used. -/
structure AllocatesPage (p : Pmm) : Prop where
  /-- `NULL` stands for an allocator without free pages. -/
  null_iff : (pmmAlloc p).1 = 0 ↔ ∀ i < p.numRegions, (p.regions i).freePages = 0
  /-- It changes nothing then. -/
  null_eq : (pmmAlloc p).1 = 0 → (pmmAlloc p).2 = p
  /-- Any other address is that of one page, which was free, and of which
  alone the bit is set and the counter decremented. -/
  takes : (pmmAlloc p).1 ≠ 0 → ∃ i < p.numRegions, ∃ k < 8 * (p.regions i).bitmapSize,
    p.pageBit i k = false ∧ (pmmAlloc p).1 = (p.regions i).base + 4096 * k
      ∧ p.ChangesPage i k true ((p.regions i).freePages - 1) (pmmAlloc p).2
  /-- No remainder is by zero. -/
  checked : pmmAllocChecked p = some (pmmAlloc p)

/-- Nothing is allocated where no region counts a free page. -/
theorem allocatesPage_of_none {p : Pmm} (hzero : ∀ i < p.numRegions, (p.regions i).freePages = 0)
    (halloc : pmmAlloc p = (0, p)) : p.AllocatesPage := by
  refine ⟨?_, ?_, ?_, pmmAllocChecked_eq p⟩
  · rw [halloc]
    exact iff_of_true rfl hzero
  · intro _
    rw [halloc]
  · intro hne
    rw [halloc] at hne
    exact absurd rfl hne

/-- A page is allocated if it has an address, and one that is not `NULL`. -/
theorem allocatesPage_of_page {p : Pmm} (hp : p.WellPlaced) (h : p.Consistent) {i k rc bc : ℕ}
    (hi : i < p.numRegions) (hk : k < 8 * (p.regions i).bitmapSize) (hclear : p.pageBit i k = false)
    (hfree : (p.regions i).freePages ≠ 0)
    (halloc : pmmAlloc p = ((p.regions i).pageAddress k,
      ((p.withCaches rc bc).markPageUsed i ((p.regions i).pageAddress k)).2))
    (hend : (p.regions i).base + (p.regions i).length < 2 ^ 64)
    (hnull : ¬ ((p.regions i).base = 0 ∧ k = 0)) : p.AllocatesPage := by
  have hpage := h.clear_lt i hi k hk hclear
  have haddr := (pageAddress_of_lt hend hpage).1
  rw [markPageUsed_pageAddress hend hpage] at halloc
  have hne : (pmmAlloc p).1 ≠ 0 := by
    rw [halloc, haddr]
    omega
  refine ⟨?_, fun hzero => absurd hzero hne, fun _ => ?_, pmmAllocChecked_eq p⟩
  · exact iff_of_false hne fun hall => hfree (hall i hi)
  · -- the counter is neither 0 nor near an overflow
    have hlt := h.freePages_lt hp hi
    have hdown : ((p.regions i).freePages + 2 ^ 64 - 1) % 2 ^ 64
        = (p.regions i).freePages - 1 := by
      omega
    refine ⟨i, hi, k, hk, hclear, ?_, ?_⟩
    · rw [halloc, haddr]
    · rw [halloc, ← hdown]
      exact hp.withPageUsed hi hk rc bc

/-- **When `pmm_alloc` keeps its promise on a consistent state**: the region of
the next page ends before the end of the address space, and the page is not the
one at the address 0. -/
theorem pmmAlloc_allocatesPage_iff (p : Pmm) (hp : p.WellPlaced) (h : p.Consistent)
    (hc : p.CachesOk) :
    p.AllocatesPage ↔ ∀ i k, p.IsNextPage i k →
      (p.regions i).base + (p.regions i).length < 2 ^ 64
        ∧ ¬ ((p.regions i).base = 0 ∧ k = 0) := by
  obtain ⟨hzero, halloc⟩ | ⟨i, k, rc, bc, hnext, hi, hk, hclear, halloc⟩ :=
    pmmAlloc_consistent hp h hc
  · -- no region counts a free page, so there is no next one either
    refine iff_of_true (allocatesPage_of_none hzero halloc) fun i k hnext => ?_
    obtain ⟨t, ht, rfl, hfree, -⟩ := hnext.region
    exact absurd (hzero _ (Nat.mod_lt _ (Nat.zero_lt_of_lt ht))) hfree
  have hpage := h.clear_lt i hi k hk hclear
  have hfree : (p.regions i).freePages ≠ 0 := by
    obtain ⟨t, -, rfl, hfree, -⟩ := hnext.region
    exact hfree
  constructor
  · intro ha j l hnext'
    obtain ⟨rfl, rfl⟩ := hnext.unique hnext'
    have hne : (pmmAlloc p).1 ≠ 0 := fun hnull => hfree (ha.null_iff.mp hnull i hi)
    have hend : (p.regions i).base + (p.regions i).length < 2 ^ 64 := by
      by_contra hend
      -- the page is handed out, but its bit is left clear
      have hrej := hp.rejects_of_le hi (Nat.le_of_not_lt hend) ((p.regions i).pageAddress k)
      obtain ⟨j, hj, l, hl, hclear', -, hchanges⟩ := ha.takes hne
      have hsame : (pmmAlloc p).2 = p.withCaches rc bc := by
        rw [halloc, markPageUsed_eq]
        exact congrArg Prod.snd (if_pos hrej)
      have hset := hchanges.bit_eq
      rw [hsame] at hset
      exact Bool.false_ne_true (hclear'.symm.trans hset)
    refine ⟨hend, fun hnull => hne ?_⟩
    rw [halloc, (pageAddress_of_lt hend hpage).1, hnull.1, hnull.2]
  · intro hcond
    obtain ⟨hend, hnull⟩ := hcond i k hnext
    exact allocatesPage_of_page hp h hi hk hclear hfree halloc hend hnull

/-- One region of eight free pages. -/
def oneRegion (base : ℕ) : Pmm :=
  { bootPmm with
    numRegions := 1
    regions := fun _ => ⟨0x1000#64, 1, base, 0x8000, 8, .usable⟩ }

theorem oneRegion_wellPlaced {base : ℕ} (h : base < 2 ^ 64) : (oneRegion base).WellPlaced := by
  constructor
  · show 1 * sizeofPmmRegion ≤ 2 ^ 64
    norm_num
  · exact fun _ _ => h
  · intro _ _
    show 0x8000 < 2 ^ 64
    norm_num
  · intro _ _
    show 1 ≤ 2 ^ 64
    norm_num
  · intro i hi j hj hij
    obtain rfl := Nat.lt_one_iff.mp hi
    obtain rfl := Nat.lt_one_iff.mp hj
    exact absurd rfl hij

theorem oneRegion_consistent (base : ℕ) : (oneRegion base).Consistent := by
  have hclear : ∀ k, Bitmap.bitAt (fun _ => 0#8) 0x1000#64 k = false := fun k =>
    BitVec.getLsbD_zero
  constructor
  · intro i _
    exact (Bitmap.clearCount_of_clear fun l (_ : l < 8 * 1) => hclear l).symm
  · intro i _ k hk _
    have hk8 : k < 8 * 1 := hk
    show k < 0x8000 / 4096
    omega

theorem oneRegion_cachesOk (base : ℕ) : (oneRegion base).CachesOk := by
  constructor
  · exact fun _ => Nat.one_pos
  · intro _ _
    show 0 + 1 ≤ 2 ^ 64
    norm_num

/-- The witness of `pmmAlloc_allocatesPage_iff`: a region at 1 MB. -/
theorem pmmAlloc_allocatesPage_one : (oneRegion 0x100000).AllocatesPage := by
  refine (pmmAlloc_allocatesPage_iff _ (oneRegion_wellPlaced (by norm_num))
    (oneRegion_consistent _) (oneRegion_cachesOk _)).mpr fun i k _ => ⟨?_, ?_⟩
  · show 0x100000 + 0x8000 < 2 ^ 64
    norm_num
  · rintro ⟨hzero, -⟩
    cases hzero

/-- **The page at the address 0 is handed out as `NULL`**, though it is marked
as used; and a page of a region at the end of the address space is handed out
without being marked. -/
theorem pmmAlloc_not_allocatesPage :
    ((oneRegion 0).WellPlaced ∧ (oneRegion 0).Consistent ∧ (oneRegion 0).CachesOk
      ∧ ¬ (oneRegion 0).AllocatesPage)
    ∧ (oneRegion (2 ^ 64 - 0x8000)).WellPlaced ∧ (oneRegion (2 ^ 64 - 0x8000)).Consistent
      ∧ (oneRegion (2 ^ 64 - 0x8000)).CachesOk
      ∧ ¬ (oneRegion (2 ^ 64 - 0x8000)).AllocatesPage := by
  refine ⟨⟨oneRegion_wellPlaced (by norm_num), oneRegion_consistent _, oneRegion_cachesOk _,
    fun h => ?_⟩, oneRegion_wellPlaced (by norm_num), oneRegion_consistent _,
    oneRegion_cachesOk _, fun h => ?_⟩
  · have hnull : (pmmAlloc (oneRegion 0)).1 = 0 := by decide
    exact absurd (h.null_iff.mp hnull 0 Nat.one_pos) (by decide)
  · have hne : (pmmAlloc (oneRegion (2 ^ 64 - 0x8000))).1 ≠ 0 := by decide
    obtain ⟨i, hi, k, hk, -, -, hchanges⟩ := h.takes hne
    obtain rfl := Nat.lt_one_iff.mp hi
    have hcount := congrArg PmmRegion.freePages hchanges.region_eq
    exact absurd hcount (by decide)

end Pmm
