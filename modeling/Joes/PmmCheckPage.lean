import Joes.PmmLookup

/-!
# What `pmm_check_page` reports

`pmm_check_page` returns the byte of the bitmap under the mask of the page's
bit, as a `pmm_page_status_t`. A clear bit gives 0, which is `PMM_PAGE_FREE`. A
set bit gives `2 ^ (k % 8)` for page `k`: `PMM_PAGE_USED` for one page in
eight, `PMM_PAGE_NOT_FOUND` for the next one, and no status at all for the
others. So the report is right exactly where the bit is clear or is the first
one of its byte (`pmmCheckPage_reports_iff`).

For an address outside every region it is the lookup that decides. It is
rejected by `pmm_free` and `pmm_check_page` only if the lookup stays within the
region array (`rejectedSafely_iff`).
-/

namespace Pmm

/-- Two regions of sixteen pages, at 1 MB and at 2 MB, with this value in every
byte of their bitmaps. -/
def twoRegions (byte : BitVec 8) : Pmm :=
  { bootPmm with
    numRegions := 2
    regions := fun i =>
      if i = 0 then ⟨0x1000#64, 2, 0x100000, 0x10000, 0, .usable⟩
      else ⟨0x2000#64, 2, 0x200000, 0x10000, 0, .usable⟩
    mem := fun _ => byte }

theorem twoRegions_sorted (byte : BitVec 8) : (twoRegions byte).RegionsSorted := by
  constructor
  · show 2 * sizeofPmmRegion ≤ 2 ^ 64
    norm_num
  · intro i j hij hj
    obtain ⟨rfl, rfl⟩ : i = 0 ∧ j = 1 := by
      have hj2 : j < 2 := hj
      omega
    show 0x100000 + 0x10000 ≤ 0x200000
    norm_num
  · intro i _
    unfold twoRegions
    dsimp only
    split <;> norm_num

theorem twoRegions_pos (byte : BitVec 8) :
    ∀ i < (twoRegions byte).numRegions, 0 < ((twoRegions byte).regions i).length := by
  intro i _
  unfold twoRegions
  dsimp only
  split <;> norm_num

/-! ## The status of a page -/

/-- The status that is computed for page `k` of region `i`. -/
theorem toNat_masked_bitmapByte (p : Pmm) (i k : ℕ) :
    (p.bitmapByte i (k / 8) &&& 1#8 <<< (k % 8)).toNat
      = if p.pageBit i k then 2 ^ (k % 8) else 0 :=
  Bitmap.toNat_and_bit _ (Nat.mod_lt k (by norm_num))

/-- **The report on an address**: the status of its page, and
`PMM_PAGE_NOT_FOUND` only for an address in no region. -/
structure ReportsBitmap (p : Pmm) (a : ℕ) : Prop where
  /-- A page is used if its bit is set, and free if it is clear. -/
  status_eq : ∀ i < p.numRegions, a ∈ p.regions i →
    (p.regions i).pageOf a < (p.regions i).length / 4096 →
    pmmCheckPage p a
      = some (if p.pageBit i ((p.regions i).pageOf a) then pmmPageUsed else pmmPageFree)
  /-- An address in a region is found. -/
  not_mem_of_notFound : pmmCheckPage p a = some pmmPageNotFound →
    ∀ i < p.numRegions, a ∉ p.regions i

/-- **The bit that is read for an address of region `i` gives the right
status.** It is bit `l` of the region that the lookup ends at. For the address
of a page it has to agree with the bit of that page, and to be the first one of
its byte if it is set. Behind the last page of the region it must not make the
address one that is not found. -/
def ReadsStatus (p : Pmm) (i a : ℕ) : Prop :=
  let l := (p.regions (p.regionFound i)).pageOf a
  if (p.regions i).pageOf a < (p.regions i).length / 4096 then
    p.pageBit (p.regionFound i) l = p.pageBit i ((p.regions i).pageOf a)
      ∧ (p.pageBit (p.regionFound i) l = true → l % 8 = 0)
  else
    p.pageBit (p.regionFound i) l = true → l % 8 ≠ 1

/-- Where no region is empty, the bit that is read is that of the address. -/
theorem readsStatus_of_pos {p : Pmm} (h : p.RegionsSorted)
    (hpos : ∀ i < p.numRegions, 0 < (p.regions i).length) {i a : ℕ} (hi : i < p.numRegions)
    (ha : a ∈ p.regions i) (hk : (p.regions i).pageOf a < (p.regions i).length / 4096) :
    p.ReadsStatus i a ↔ (p.pageBit i ((p.regions i).pageOf a) = true
      → (p.regions i).pageOf a % 8 = 0) := by
  have hfound := h.getRegionContainingPage_of_mem hi ha
  rw [h.getRegionContainingPage_eq_found hpos hi ha] at hfound
  unfold ReadsStatus
  rw [← RegionLookup.found.inj hfound, if_pos hk]
  exact and_iff_right rfl

/-- A power of two as a status. -/
theorem status_eq_iff {b c : Bool} {l : ℕ} :
    (if b then 2 ^ (l % 8) else 0) = (if c then pmmPageUsed else pmmPageFree)
      ↔ b = c ∧ (b = true → l % 8 = 0) := by
  cases b with
  | true =>
    cases c with
    | true => simp
    | false => simp
  | false => cases c <;> simp

theorem status_ne_notFound_iff {b : Bool} {l : ℕ} :
    (if b then 2 ^ (l % 8) else 0) ≠ pmmPageNotFound ↔ (b = true → l % 8 ≠ 1) := by
  have hpow : 2 ^ (l % 8) = 2 ^ 1 ↔ l % 8 = 1 := Nat.pow_right_inj (le_refl 2)
  cases b with
  | true => simpa using not_congr hpow
  | false => simp

/-- **`pmm_check_page` reports the bitmap exactly where the bit that is read is
clear or the first one of its byte**, and is a bit of the region of the
address. -/
theorem pmmCheckPage_reports_iff (p : Pmm) (h : p.RegionsSorted) (a : ℕ) :
    p.ReportsBitmap a ↔ ∀ i < p.numRegions, a ∈ p.regions i → p.ReadsStatus i a := by
  have hcheck : ∀ i < p.numRegions, a ∈ p.regions i → pmmCheckPage p a
      = some (if p.pageBit (p.regionFound i) ((p.regions (p.regionFound i)).pageOf a)
          then 2 ^ ((p.regions (p.regionFound i)).pageOf a % 8) else 0) := by
    intro i hi ha
    unfold pmmCheckPage
    rw [h.getRegionContainingPage_of_mem hi ha]
    exact congrArg some (p.toNat_masked_bitmapByte _ _)
  constructor
  · intro hr i hi ha
    unfold ReadsStatus
    dsimp only
    split
    · next hk =>
      have hstatus := hr.status_eq i hi ha hk
      rw [hcheck i hi ha, Option.some_inj] at hstatus
      exact status_eq_iff.mp hstatus
    · refine status_ne_notFound_iff.mp fun hnot => ?_
      refine hr.not_mem_of_notFound ?_ i hi ha
      rw [hcheck i hi ha, hnot]
  · intro hreads
    constructor
    · intro i hi ha hk
      have hread := hreads i hi ha
      unfold ReadsStatus at hread
      rw [if_pos hk] at hread
      rw [hcheck i hi ha, status_eq_iff.mpr hread]
    · intro hnot i hi ha
      have hread := hreads i hi ha
      unfold ReadsStatus at hread
      dsimp only at hread
      rw [hcheck i hi ha, Option.some_inj] at hnot
      split at hread
      · -- the status of a page is none that is not found
        rw [status_eq_iff.mpr hread] at hnot
        split at hnot <;> exact absurd hnot (by norm_num)
      · exact status_ne_notFound_iff.mpr hread hnot

/-- The witness of `pmmCheckPage_reports_iff`: the first page of two regions
that are full. -/
theorem pmmCheckPage_reports_first : (twoRegions 0xFF#8).ReportsBitmap 0x100000 := by
  refine (pmmCheckPage_reports_iff _ (twoRegions_sorted _) _).mpr fun i hi ha => ?_
  have hi2 : i < 2 := hi
  obtain rfl : i = 0 := by
    by_contra hne
    obtain rfl : i = 1 := by omega
    exact absurd ha (by decide)
  rw [readsStatus_of_pos (twoRegions_sorted _) (twoRegions_pos _) hi ha (by decide)]
  exact fun _ => rfl

/-- **The second page of a region is reported as not found** if its bit is
set. -/
theorem pmmCheckPage_not_reports :
    0x101000 ∈ (twoRegions 0xFF#8).regions 0
      ∧ pmmCheckPage (twoRegions 0xFF#8) 0x101000 = some pmmPageNotFound
      ∧ ¬ (twoRegions 0xFF#8).ReportsBitmap 0x101000 := by
  have hmem : 0x101000 ∈ (twoRegions 0xFF#8).regions 0 := by decide
  have hnot : pmmCheckPage (twoRegions 0xFF#8) 0x101000 = some pmmPageNotFound := by decide
  exact ⟨hmem, hnot, fun h => h.not_mem_of_notFound hnot 0 (by decide) hmem⟩

/-! ## An address outside every region -/

/-- **An address is rejected safely**: the lookup ends within the region array
and finds nothing, and the callers say so without changing anything. -/
structure RejectedSafely (p : Pmm) (a : ℕ) : Prop where
  /-- No index outside the region array is looked at. -/
  lookup_eq : p.getRegionContainingPage a = .notFound
  /-- `pmm_free` returns an error and changes nothing. -/
  free_eq : pmmFree p a = some (.addressNotFound, p)
  /-- `pmm_check_page` does not find the page. -/
  check_eq : pmmCheckPage p a = some pmmPageNotFound

theorem rejectedSafely_iff_lookup {p : Pmm} {a : ℕ} :
    p.RejectedSafely a ↔ p.getRegionContainingPage a = .notFound := by
  refine ⟨fun h => h.lookup_eq, fun h => ⟨h, ?_, ?_⟩⟩
  · unfold pmmFree
    rw [h]
  · unfold pmmCheckPage
    rw [h]

/-- **Addresses outside every region are rejected safely with one region, and
with two if they are not below the first.** With more regions the search always
has a round left when the window is empty. -/
theorem rejectedSafely_iff (p : Pmm) (h : p.RegionsSorted) (hn : 1 ≤ p.numRegions)
    (hpos : ∀ i < p.numRegions, 0 < (p.regions i).length) (a : ℕ)
    (hout : ∀ i < p.numRegions, a ∉ p.regions i) :
    p.RejectedSafely a
      ↔ p.numRegions = 1 ∨ p.numRegions = 2 ∧ (p.regions 0).base ≤ a := by
  obtain ⟨g, hg⟩ := h.exists_inGap hout
  have hbase : g ≠ 0 ↔ (p.regions 0).base ≤ a := by
    constructor
    · intro hg0
      have := hg.below 0 (Nat.pos_of_ne_zero hg0)
      omega
    · rintro hle rfl
      have := hg.above 0 hn le_rfl
      omega
  rw [rejectedSafely_iff_lookup, getRegionContainingPage_gap h hpos hn hg, ← hbase]
  split
  · next hcase => exact iff_of_true rfl hcase
  · next hcase => exact iff_of_false RegionLookup.noConfusion hcase

/-- The witness of `rejectedSafely_iff`: an address between two regions. -/
theorem rejectedSafely_between : (twoRegions 0#8).RejectedSafely 0x150000 := by
  refine (rejectedSafely_iff _ (twoRegions_sorted _) (by decide) (twoRegions_pos _) _ ?_).mpr
    (Or.inr ⟨rfl, by decide⟩)
  decide

/-- **`NULL` is not rejected safely** where there are two regions above it: the
lookup looks at an index behind the array. -/
theorem not_rejectedSafely_null :
    (∀ i < (twoRegions 0#8).numRegions, 0 ∉ (twoRegions 0#8).regions i)
      ∧ (twoRegions 0#8).getRegionContainingPage 0 = .outOfBounds
      ∧ ¬ (twoRegions 0#8).RejectedSafely 0 := by
  have hlookup : (twoRegions 0#8).getRegionContainingPage 0 = .outOfBounds := by decide
  refine ⟨by decide, hlookup, fun h => ?_⟩
  rw [h.lookup_eq] at hlookup
  cases hlookup

end Pmm
