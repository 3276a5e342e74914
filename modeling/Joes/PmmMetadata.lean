import Joes.PmmInit

/-!
# Does the manager's data fit the pages reserved for it?

The size of the data is computed twice. `pmm_get_num_required_pages` adds the
lengths of all entries up and rounds the bits to bytes once; `pmm_region_init`
rounds each bitmap for itself. The second sum is the larger one if several
entries have a number of pages that is not a multiple of eight – and it can be
larger by a page, because the required bytes are rounded up to whole pages only
at the very end.

The ranges that the data occupies never overlap. They lie in the required
pages exactly if the bytes that are really used need no more pages than those
that were computed (`metadataFits_iff`); the smallest excess is one byte
(`tightMap`).
-/

/-- A range of bytes of the memory. -/
structure ByteRange where
  /-- The first byte. -/
  ptr : BitVec 64
  /-- The number of bytes. -/
  size : ℕ

/-- The addresses of a range. -/
instance : Membership (BitVec 64) ByteRange :=
  ⟨fun r a => ∃ o < r.size, a = Bitmap.byteAddress r.ptr o⟩

/-- The ranges that the manager's data occupies: the region array, and then the
bitmaps. -/
def Pmm.metadataRange (p : Pmm) : ℕ → ByteRange
  | 0 => ⟨p.regionsPtr, p.numRegions * sizeofPmmRegion⟩
  | i + 1 => ⟨(p.regions i).bitmap, (p.regions i).bitmapSize⟩

/-- **The data fits the pages reserved for it**: no byte belongs to two parts
of it, and each lies in one of the required pages, which is marked as used. -/
structure MetadataFits (m : Memmap) (p : Pmm) : Prop where
  /-- The array and the bitmaps are pairwise disjoint. -/
  disjoint : ∀ i ≤ p.numRegions, ∀ j ≤ p.numRegions, i ≠ j →
    ∀ a ∈ p.metadataRange i, a ∉ p.metadataRange j
  /-- Each byte lies in a page that is reserved and marked as used. -/
  inside : ∀ i ≤ p.numRegions, ∀ a ∈ p.metadataRange i,
    ∃ o < m.requiredPages * 4096,
      a = Bitmap.byteAddress (physToVirt m.dataBase p.physToVirtOffset) o
        ∧ p.pageBit m.dataEntry (o / 4096) = true

namespace Memmap

variable (m : Memmap)

/-- The bytes of the data as `pmm_get_num_required_pages` computes them: the
pages of all entries together, rounded to bytes once. -/
def bytesRoundedOnce : ℕ := m.regionArraySize + (m.lengthSum m.entryCount / 4096 + 7) / 8

/-- The bytes that the data really takes: each bitmap rounded for itself. -/
def bytesRoundedEach : ℕ := m.regionArraySize + m.bitmapOffset m.entryCount

/-- The offset of each part of the data: the region array, then the bitmaps,
then the end. -/
def partOffset : ℕ → ℕ
  | 0 => 0
  | i + 1 => m.regionArraySize + m.bitmapOffset i

theorem partOffset_le_succ (i : ℕ) : m.partOffset i ≤ m.partOffset (i + 1) := by
  cases i with
  | zero => exact Nat.zero_le _
  | succ i => exact Nat.add_le_add_left (m.bitmapOffset_mono (Nat.le_succ i)) _

theorem partOffset_mono {i j : ℕ} (h : i ≤ j) : m.partOffset i ≤ m.partOffset j :=
  monotone_nat_of_le_succ m.partOffset_le_succ h

/-- Every offset below the end lies in one of the parts. -/
theorem exists_part {x t : ℕ} (h : x < m.partOffset t) :
    ∃ i < t, m.partOffset i ≤ x ∧ x < m.partOffset (i + 1) := by
  induction t with
  | zero => exact absurd h (Nat.not_lt_zero x)
  | succ t ih =>
    obtain hle | hlt := Nat.lt_or_ge x (m.partOffset t) |>.symm
    · exact ⟨t, Nat.lt_succ_self t, hle, h⟩
    · obtain ⟨i, hi, hx⟩ := ih hlt
      exact ⟨i, Nat.lt_succ_of_lt hi, hx⟩

end Memmap

namespace HasLayout

variable {m : Memmap} {p : Pmm}

/-- **The parts lie one behind the other.** -/
theorem mem_metadataRange (h : HasLayout m p) {i : ℕ} (hi : i ≤ m.entryCount) (a : BitVec 64) :
    a ∈ p.metadataRange i ↔ ∃ x, m.partOffset i ≤ x ∧ x < m.partOffset (i + 1)
      ∧ a = Bitmap.byteAddress p.regionsPtr x := by
  have hrange : p.metadataRange i = ⟨Bitmap.byteAddress p.regionsPtr (m.partOffset i),
      m.partOffset (i + 1) - m.partOffset i⟩ := by
    cases i with
    | zero =>
      have harray : m.partOffset 1 - m.partOffset 0 = m.entryCount * sizeofPmmRegion := rfl
      rw [Pmm.metadataRange, h.numRegions_eq, harray]
      congr 1
      exact (BitVec.add_zero _).symm
    | succ i =>
      have hsize : m.partOffset (i + 2) - m.partOffset (i + 1)
          = regionBitmapSize (m.entries i).length := by
        show m.regionArraySize + m.bitmapOffset (i + 1) - (m.regionArraySize + m.bitmapOffset i) = _
        rw [m.bitmapOffset_succ]
        omega
      rw [Pmm.metadataRange, h.bitmap_eq i hi, h.bitmapSize_eq i hi, hsize]
      rfl
  rw [hrange]
  constructor
  · rintro ⟨o, ho, rfl⟩
    dsimp only at ho
    refine ⟨m.partOffset i + o, Nat.le_add_right _ _, by omega, ?_⟩
    exact Bitmap.byteAddress_byteAddress _ _ _
  · rintro ⟨x, hx, hx', rfl⟩
    refine ⟨x - m.partOffset i, Nat.sub_lt_sub_right hx hx', ?_⟩
    rw [Bitmap.byteAddress_byteAddress, Nat.add_sub_cancel' hx]

/-- The data ends within the address space. -/
theorem partOffset_lt {i : ℕ} (hi : i ≤ m.entryCount) : m.partOffset (i + 1) < 2 ^ 64 :=
  lt_of_le_of_lt (m.partOffset_mono (Nat.succ_le_succ hi)) m.metadataSize_lt

/-- **The parts are disjoint**, whatever the lengths of the entries. -/
theorem metadataRange_disjoint (h : HasLayout m p) {i j : ℕ} (hi : i ≤ m.entryCount)
    (hj : j ≤ m.entryCount) (hij : i ≠ j) {a : BitVec 64} (ha : a ∈ p.metadataRange i) :
    a ∉ p.metadataRange j := by
  intro hb
  obtain ⟨x, hx, hx', rfl⟩ := (h.mem_metadataRange hi a).mp ha
  obtain ⟨y, hy, hy', hxy⟩ := (h.mem_metadataRange hj _).mp hb
  have hxlt := @partOffset_lt m i hi
  have hylt := @partOffset_lt m j hj
  rw [Bitmap.byteAddress_inj (by omega) (by omega)] at hxy
  obtain hlt | hgt := Nat.lt_or_gt_of_ne hij
  · have : m.partOffset (i + 1) ≤ m.partOffset j := m.partOffset_mono hlt
    omega
  · have : m.partOffset (j + 1) ≤ m.partOffset i := m.partOffset_mono hgt
    omega

/-- Where the data fits, its last byte does. -/
theorem bytesRoundedEach_le (h : HasLayout m p)
    (hptr : p.regionsPtr = physToVirt m.dataBase p.physToVirtOffset) (hfits : MetadataFits m p) :
    m.bytesRoundedEach ≤ m.requiredPages * 4096 := by
  by_contra hgt
  -- the first byte behind the required pages is one of the data
  have hlast : m.requiredPages * 4096 < m.partOffset (m.entryCount + 1) := Nat.lt_of_not_le hgt
  obtain ⟨i, hi, hx, hx'⟩ := m.exists_part hlast
  have hi' : i ≤ m.entryCount := Nat.le_of_lt_succ hi
  have hmem : Bitmap.byteAddress p.regionsPtr (m.requiredPages * 4096) ∈ p.metadataRange i :=
    (h.mem_metadataRange hi' _).mpr ⟨_, hx, hx', rfl⟩
  obtain ⟨o, ho, heq, -⟩ := hfits.inside i (by rw [h.numRegions_eq]; exact hi') _ hmem
  have hlt := m.requiredPages_lt
  rw [hptr, Bitmap.byteAddress_inj (by omega) (by omega)] at heq
  omega

end HasLayout

/-- Data that ends within the required pages fits them. -/
theorem Guarded.metadataFits {m : Memmap} {p : Pmm} (h : Guarded m p)
    (hbits : ∀ k < m.requiredPages, p.pageBit m.dataEntry k = true)
    (hle : m.bytesRoundedEach ≤ m.requiredPages * 4096) : MetadataFits m p := by
  constructor
  · intro i hi j hj hij a ha
    rw [h.numRegions_eq] at hi hj
    exact h.metadataRange_disjoint hi hj hij ha
  · intro i hi a ha
    rw [h.numRegions_eq] at hi
    obtain ⟨x, -, hx, rfl⟩ := (h.mem_metadataRange hi a).mp ha
    have hend : m.partOffset (i + 1) ≤ m.bytesRoundedEach :=
      m.partOffset_mono (Nat.succ_le_succ hi)
    refine ⟨x, by omega, by rw [h.regionsPtr_eq], hbits _ ?_⟩
    omega

/-- **The data fits exactly if rounding each bitmap for itself takes no page
more than rounding once.** -/
theorem metadataFits_iff (m : Memmap) (hhdm : BitVec 64) (p : Pmm)
    (h : (pmmInit m.toLimineMemmapResponse hhdm p).1 = .ok) :
    MetadataFits m (pmmInit m.toLimineMemmapResponse hhdm p).2
      ↔ (m.bytesRoundedEach + 4095) / 4096 ≤ (m.bytesRoundedOnce + 4095) / 4096 := by
  have hg := (guarded_of_pmmInit h).2
  have hreq : m.requiredPages = (m.bytesRoundedOnce + 4095) / 4096 := m.requiredPages_eq
  rw [← hreq]
  constructor
  · intro hfits
    have hle := hg.bytesRoundedEach_le hg.regionsPtr_eq hfits
    omega
  · intro hle
    exact hg.metadataFits (fun k hk => bitAt_required_of_pmmInit h hk) (by omega)

/-- The witness of `metadataFits_iff`: eight pages of usable memory. -/
theorem metadataFits_iff_eight :
    (pmmInit (singleEntryMap 8).toLimineMemmapResponse 0#64 bootPmm).1 = .ok
      ∧ (MetadataFits (singleEntryMap 8)
          (pmmInit (singleEntryMap 8).toLimineMemmapResponse 0#64 bootPmm).2
        ↔ ((singleEntryMap 8).bytesRoundedEach + 4095) / 4096
            ≤ ((singleEntryMap 8).bytesRoundedOnce + 4095) / 4096) :=
  ⟨by decide, metadataFits_iff _ _ _ (by decide)⟩

/-! ## One byte too many -/

theorem tightMap_sorted : 0x100000 + 31999 * 4096 ≤ 0x7dff000 := by norm_num

theorem tightMap_bounded : 0x7dff000 + 4096 < 2 ^ 64 := by norm_num

/-- A map with 31999 usable pages and a reserved one. The array takes 96 bytes,
the bitmap of all 32000 pages together would take 4000. -/
def tightMap : Memmap :=
  twoEntryMap ⟨0x100000, 31999 * 4096, .usable⟩ ⟨0x7dff000, 4096, .reserved⟩
    tightMap_sorted tightMap_bounded

/-- **The data does not always fit.** The two bitmaps take 4000 bytes and one
byte, so the second one lies behind the one page that is reserved. -/
theorem metadata_not_fits :
    (pmmInit tightMap.toLimineMemmapResponse 0#64 bootPmm).1 = .ok
      ∧ ¬ MetadataFits tightMap (pmmInit tightMap.toLimineMemmapResponse 0#64 bootPmm).2 := by
  have hok : (pmmInit tightMap.toLimineMemmapResponse 0#64 bootPmm).1 = .ok := by decide
  refine ⟨hok, fun hfits => ?_⟩
  have hg := (guarded_of_pmmInit hok).2
  have hle := hg.bytesRoundedEach_le hg.regionsPtr_eq hfits
  exact absurd hle (by decide)
