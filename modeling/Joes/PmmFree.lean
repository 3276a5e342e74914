import Joes.PmmAlloc
import Joes.PmmLookup

/-!
# `pmm_free` undoes `pmm_alloc`

For an address inside a page of a region `pmm_free` finds the region, and
clears the bit of the page. Together with what `pmm_alloc` does that is a round
trip: whatever page is handed out, giving it back restores the memory and every
region (`pmmFree_undoes_pmmAlloc`). Only the caches remember the call.

The address need not be the first of its page, since the page is found by a division
of the offset in the region (`mem_of_page`). The region is found by the bases and the
lengths of all regions, and a page that is marked changes neither, so the lookup is the
same before the call of `pmm_alloc` and after it (`RegionsSorted.withPageUsed`). It
remains to be seen that the second call takes back what the first one has written
(`withPageFree_withPageUsed`): the bit was clear, so clearing it is what it was, and the
counter is counted down and up again. Both hold for the page of the result, as a
consistent manager hands out pages of its regions that were clear
(`pmmAlloc_of_consistent`), with whatever its caches hold.
-/

namespace Pmm

variable {p : Pmm}

/-- The lookup depends on the bases and the lengths alone. -/
theorem RegionsSorted.withPageUsed (h : p.RegionsSorted) (rc bc i k : ℕ) :
    ((p.withCaches rc bc).withPageUsed i k).RegionsSorted := by
  have hregion : ∀ j, ∃ g, ((p.withCaches rc bc).withPageUsed i k).regions j
      = { p.regions j with freePages := g } := fun j => regions_withFreePages _ _ _ _ j
  refine ⟨h.array_le, fun j l hjl hl => ?_, fun j hj => ?_⟩
  · obtain ⟨g, hg⟩ := hregion j
    obtain ⟨g', hg'⟩ := hregion l
    rw [hg, hg']
    exact h.sorted j l hjl hl
  · obtain ⟨g, hg⟩ := hregion j
    rw [hg]
    exact h.bounded j hj

/-- An address inside a page of a region that ends before the end of the
address space: it lies in the region, is not rejected, and belongs to that
page. -/
theorem mem_of_page {r : PmmRegion} (hend : r.base + r.length < 2 ^ 64) {k a : ℕ}
    (hk : k < r.length / 4096) (ha : r.base + 4096 * k ≤ a) (ha' : a < r.base + 4096 * (k + 1)) :
    a ∈ r ∧ ¬ r.Rejects a ∧ r.pageOf a = k := by
  refine ⟨?_, ?_, ?_⟩
  · rw [PmmRegion.mem_def]
    omega
  · unfold PmmRegion.Rejects
    omega
  · unfold PmmRegion.pageOf
    omega

/-- **A call of `pmm_free` for an address inside a page** marks that page as
free. -/
theorem pmmFree_of_page (hs : p.RegionsSorted)
    (hpos : ∀ i < p.numRegions, 0 < (p.regions i).length) {i : ℕ} (k a : ℕ) (hi : i < p.numRegions)
    (hend : (p.regions i).base + (p.regions i).length < 2 ^ 64)
    (hk : k < (p.regions i).length / 4096) (ha : (p.regions i).base + 4096 * k ≤ a)
    (ha' : a < (p.regions i).base + 4096 * (k + 1)) :
    p.getRegionContainingPage a = .found i ∧ pmmFree p a = some (.ok, p.withPageFree i k) := by
  obtain ⟨hmem, hrej, hpage⟩ := mem_of_page hend hk ha ha'
  have hfound := hs.getRegionContainingPage_eq_found hpos hi hmem
  refine ⟨hfound, ?_⟩
  unfold pmmFree
  rw [hfound]
  dsimp only
  rw [markPageFree_eq, if_neg hrej, hpage]

/-- Giving back a page that was free before it was taken. -/
theorem withPageFree_withPageUsed {i k : ℕ} (hclear : p.pageBit i k = false)
    (hfree : (p.regions i).freePages < 2 ^ 64) : (p.withPageUsed i k).withPageFree i k = p := by
  have hcount : (((p.regions i).freePages + 2 ^ 64 - 1) % 2 ^ 64 + 1) % 2 ^ 64
      = (p.regions i).freePages := by
    omega
  unfold withPageFree withPageUsed
  rw [withFreePages_withFreePages, regions_withFreePages_self, mem_withFreePages]
  dsimp only
  rw [hcount, Bitmap.clearBit_setBit hclear]
  exact p.withRegion_self i

/-- **A call of `pmm_alloc` on a consistent state, with any caches**: it returns
`NULL`, or marks a page as used that was free. -/
theorem pmmAlloc_of_consistent (h : p.Consistent)
    (hend : ∀ i < p.numRegions, (p.regions i).base + (p.regions i).length < 2 ^ 64) :
    (pmmAlloc p).1 = 0 ∨
    ∃ i k rc bc, i < p.numRegions ∧ k < (p.regions i).length / 4096 ∧ p.pageBit i k = false
      ∧ pmmAlloc p = ((p.regions i).base + 4096 * k, (p.withCaches rc bc).withPageUsed i k) := by
  obtain ⟨rc, bc, hnull⟩ | ⟨i, b, k, rc, bc, hfirst, hk, halloc⟩ := p.pmmAlloc_cases
  · rw [hnull]
    exact Or.inl rfl
  · right
    have hi := hfirst.region_lt
    have hb := hfirst.byte_lt
    have hk8 := hk.lt
    have hclear : p.pageBit i (b * 8 + k) = false := by
      rw [pageBit_mul_add _ _ _ hk8]
      exact hk.clear
    have hpage := h.clear_lt i hi (b * 8 + k) (by omega) hclear
    refine ⟨i, b * 8 + k, rc, bc, hi, hpage, hclear, ?_⟩
    rw [halloc, markPageUsed_pageAddress (hend i hi) hpage,
      (pageAddress_of_lt (hend i hi) hpage).1]

/-- **A page that was just taken is given back**: the bit and the counter are what
they were, and only the caches are new. -/
theorem pmmFree_withPageUsed (hs : p.RegionsSorted)
    (hpos : ∀ j < p.numRegions, 0 < (p.regions j).length) {i k : ℕ} (rc bc : ℕ)
    (hi : i < p.numRegions) (hend : (p.regions i).base + (p.regions i).length < 2 ^ 64)
    (hk : k < (p.regions i).length / 4096) (hclear : p.pageBit i k = false)
    (hfree : (p.regions i).freePages < 2 ^ 64) :
    pmmFree ((p.withCaches rc bc).withPageUsed i k) ((p.regions i).base + 4096 * k)
      = some (.ok, p.withCaches rc bc) := by
  have hs' := hs.withPageUsed rc bc i k
  have hregion : ∀ j, ∃ g, ((p.withCaches rc bc).withPageUsed i k).regions j
      = { p.regions j with freePages := g } := fun j => regions_withFreePages _ _ _ _ j
  have hpos' : ∀ j < ((p.withCaches rc bc).withPageUsed i k).numRegions,
      0 < (((p.withCaches rc bc).withPageUsed i k).regions j).length := by
    intro j hj
    obtain ⟨g, hg⟩ := hregion j
    rw [hg]
    exact hpos j hj
  obtain ⟨g, hg⟩ := hregion i
  have hbase : (((p.withCaches rc bc).withPageUsed i k).regions i).base = (p.regions i).base := by
    rw [hg]
  have hlength : (((p.withCaches rc bc).withPageUsed i k).regions i).length
      = (p.regions i).length := by
    rw [hg]
  have hcall := pmmFree_of_page hs' hpos' k ((p.regions i).base + 4096 * k) hi
  rw [hbase, hlength] at hcall
  have hclear' : (p.withCaches rc bc).pageBit i k = false := hclear
  rw [(hcall hend hk le_rfl (by omega)).2, withPageFree_withPageUsed hclear' hfree]

/-- **`pmm_free` undoes `pmm_alloc`.** A page that is marked as used is marked
as free by a call for any address inside it, and nothing else changes; a page
that was handed out and is given back leaves the memory and the regions as they
were. -/
theorem pmmFree_undoes_pmmAlloc (p : Pmm) (hs : p.RegionsSorted) (hp : p.WellPlaced)
    (h : p.Consistent) (hpos : ∀ i < p.numRegions, 0 < (p.regions i).length)
    (hend : ∀ i < p.numRegions, (p.regions i).base + (p.regions i).length < 2 ^ 64) :
    (∀ i < p.numRegions, ∀ k < (p.regions i).length / 4096, k < 8 * (p.regions i).bitmapSize →
      p.pageBit i k = true → ∀ a, (p.regions i).base + 4096 * k ≤ a →
      a < (p.regions i).base + 4096 * (k + 1) →
        p.getRegionContainingPage a = .found i
        ∧ ∃ q, pmmFree p a = some (.ok, q)
          ∧ p.ChangesPage i k false ((p.regions i).freePages + 1) q
          ∧ q.regionCache = p.regionCache ∧ q.bitmapCache = p.bitmapCache)
    ∧ ((pmmAlloc p).1 ≠ 0 → ∃ q, pmmFree (pmmAlloc p).2 (pmmAlloc p).1 = some (.ok, q)
        ∧ q.mem = p.mem ∧ q.regions = p.regions) := by
  constructor
  · intro i hi k hk hbit _ a ha ha'
    obtain ⟨hfound, hfree⟩ := pmmFree_of_page hs hpos k a hi (hend i hi) hk ha ha'
    have hlt := h.freePages_lt hp hi
    have hup : ((p.regions i).freePages + 1) % 2 ^ 64 = (p.regions i).freePages + 1 := by omega
    refine ⟨hfound, _, hfree, ?_, rfl, rfl⟩
    rw [← hup]
    exact hp.withPageFree hi hbit
  · intro hne
    obtain hnull | ⟨i, k, rc, bc, hi, hk, hclear, halloc⟩ := pmmAlloc_of_consistent h hend
    · exact absurd hnull hne
    · have hlt := h.freePages_lt hp hi
      rw [halloc]
      exact ⟨_, pmmFree_withPageUsed hs hpos rc bc hi (hend i hi) hk hclear (by omega), rfl, rfl⟩

/-- The witness of `pmmFree_undoes_pmmAlloc`: a region at 1 MB. -/
theorem pmmFree_undoes_pmmAlloc_one :
    ∃ q, pmmFree (pmmAlloc (oneRegion 0x100000)).2 0x100000 = some (.ok, q)
      ∧ q.mem = (oneRegion 0x100000).mem ∧ q.regions = (oneRegion 0x100000).regions := by
  have hs : (oneRegion 0x100000).RegionsSorted := by
    refine ⟨(oneRegion_wellPlaced (by norm_num)).array_le, fun i j hij hj => ?_, fun i _ => ?_⟩
    · have hj1 : j < 1 := hj
      omega
    · show 0x100000 + 0x8000 ≤ 2 ^ 64
      norm_num
  have hend : ∀ i < (oneRegion 0x100000).numRegions,
      ((oneRegion 0x100000).regions i).base + ((oneRegion 0x100000).regions i).length
        < 2 ^ 64 := by
    intro i _
    show 0x100000 + 0x8000 < 2 ^ 64
    norm_num
  have hpos : ∀ i < (oneRegion 0x100000).numRegions,
      0 < ((oneRegion 0x100000).regions i).length := by
    intro i _
    show 0 < 0x8000
    norm_num
  have halloc : (pmmAlloc (oneRegion 0x100000)).1 = 0x100000 := by decide
  obtain ⟨-, hback⟩ := pmmFree_undoes_pmmAlloc (oneRegion 0x100000) hs
    (oneRegion_wellPlaced (by norm_num)) (oneRegion_consistent _) hpos hend
  rw [halloc] at hback
  exact hback (by norm_num)

end Pmm
