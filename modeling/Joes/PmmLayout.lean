import Joes.Pmm
import Mathlib.Algebra.Order.BigOperators.Group.Finset

/-!
# Where the memory manager keeps its data

`pmm_init` lays out, one behind the other, the region array and one bitmap for
each region, all at the start of one usable entry of the memory map. This
module follows the addresses through the initialization.

The main result of the first half is that the layout never wraps around the
address space (`metadataSize_lt`), whatever the lengths are: at most one entry
of a sorted map is so long that its length is negative as a `ptrdiff_t`. So two
bytes at two offsets are two bytes, and what is written to one bitmap is not
written to another (`HasLayout.byteAddress_ne`).

The second half is the state that a successful initialization leaves
(`pmmInit_ok`): the fields of every region, the bytes of every bitmap, and the
bits of the pages that hold the data.
-/

/-- **A memory map as the boot loader promises it**: sorted by base, with
entries that do not overlap. The end of an entry is an address, and the map is
an object in memory: an entry and the pointer to it take 32 bytes, so there are
at most `2 ^ 58` of them in a half of the address space. -/
structure Memmap extends LimineMemmapResponse where
  /-- An entry ends where a later one starts, or before. -/
  sorted : ∀ i j, i < j → j < entryCount →
    (entries i).base + (entries i).length ≤ (entries j).base
  /-- An entry does not run over the end of the address space. -/
  bounded : ∀ i < entryCount, (entries i).base + (entries i).length < 2 ^ 64
  /-- The map fits the memory. -/
  entryCount_le : entryCount ≤ 2 ^ 58

/-- The map with one usable entry of a few pages at 1 MB. -/
def singleEntryMap (pages : Fin 16) : Memmap where
  entryCount := 1
  entries := fun _ => ⟨0x100000, pages * 4096, .usable⟩
  sorted := by
    intro i j hij hj
    omega
  bounded := by
    intro i _
    have hpages := pages.isLt
    show 0x100000 + pages.val * 4096 < 2 ^ 64
    omega
  entryCount_le := by norm_num

/-- The map with two entries. -/
def twoEntryMap (e₀ e₁ : LimineMemmapEntry) (hsorted : e₀.base + e₀.length ≤ e₁.base)
    (hbounded : e₁.base + e₁.length < 2 ^ 64) : Memmap where
  entryCount := 2
  entries := fun i => if i = 0 then e₀ else e₁
  sorted := by
    intro i j hij hj
    obtain ⟨rfl, rfl⟩ : i = 0 ∧ j = 1 := by omega
    exact hsorted
  bounded := by
    intro i _
    split
    · exact lt_of_le_of_lt (le_trans hsorted (Nat.le_add_right _ _)) hbounded
    · exact hbounded
  entryCount_le := by norm_num

namespace Memmap

variable (m : Memmap)

/-- The number of whole pages of an entry. -/
def pages (i : ℕ) : ℕ := (m.entries i).length / 4096

/-- The total length of the first `t` entries. -/
def lengthSum (t : ℕ) : ℕ := ∑ i ∈ Finset.range t, (m.entries i).length

/-- The bytes that the bitmaps of the first `t` entries take. -/
def bitmapOffset (t : ℕ) : ℕ := ∑ i ∈ Finset.range t, regionBitmapSize (m.entries i).length

/-- The bytes that the region array takes. -/
def regionArraySize : ℕ := m.entryCount * sizeofPmmRegion

/-- The pages that `pmm_init` requires for the manager's data. -/
def requiredPages : ℕ :=
  pmmGetNumRequiredPages m.entryCount (pmmDetectMemory m.toLimineMemmapResponse).2

/-! ## Sums over the map -/

theorem lengthSum_succ (t : ℕ) : m.lengthSum (t + 1) = m.lengthSum t + (m.entries t).length :=
  Finset.sum_range_succ _ _

theorem bitmapOffset_succ (t : ℕ) :
    m.bitmapOffset (t + 1) = m.bitmapOffset t + regionBitmapSize (m.entries t).length :=
  Finset.sum_range_succ _ _

theorem bitmapOffset_mono {s t : ℕ} (h : s ≤ t) : m.bitmapOffset s ≤ m.bitmapOffset t :=
  Finset.sum_le_sum_of_subset (Finset.range_mono h)

/-- The entries before an entry fit below it. -/
theorem lengthSum_le_base {t : ℕ} (ht : t < m.entryCount) : m.lengthSum t ≤ (m.entries t).base := by
  induction t with
  | zero => exact Nat.zero_le _
  | succ t ih =>
    rw [lengthSum_succ]
    have hprev : m.lengthSum t ≤ (m.entries t).base := ih (by omega)
    have hnext := m.sorted t (t + 1) (Nat.lt_succ_self t) ht
    omega

theorem lengthSum_lt {t : ℕ} (ht : t ≤ m.entryCount) : m.lengthSum t < 2 ^ 64 := by
  cases t with
  | zero => exact Nat.two_pow_pos 64
  | succ t =>
    rw [lengthSum_succ]
    have hbase := m.lengthSum_le_base (t := t) ht
    have hend := m.bounded t ht
    omega

/-- `pmm_detect_memory` adds the lengths up without an overflow. -/
theorem pmmMemorySizeByte_eq {t : ℕ} (ht : t ≤ m.entryCount) :
    pmmMemorySizeByte m.toLimineMemmapResponse t = m.lengthSum t := by
  induction t with
  | zero => rfl
  | succ t ih =>
    have hlt := m.lengthSum_lt ht
    rw [lengthSum_succ] at hlt ⊢
    rw [pmmMemorySizeByte, ih (by omega), Nat.mod_eq_of_lt hlt]

/-- **The bitmaps are small.** Only one entry can have a length with the sign
bit set, and its bitmap takes an eighth of the address space; the others take
one byte for eight pages. -/
theorem bitmapOffset_le {t : ℕ} (ht : t ≤ m.entryCount) :
    m.bitmapOffset t ≤ m.lengthSum t / 32768 + t
      + (if m.lengthSum t < 2 ^ 63 then 0 else 2 ^ 61) := by
  induction t with
  | zero => exact Nat.zero_le _
  | succ t ih =>
    have hlt := m.lengthSum_lt ht
    have hprev := ih (by omega)
    rw [lengthSum_succ] at hlt
    rw [bitmapOffset_succ, lengthSum_succ]
    by_cases hsign : (m.entries t).length < 2 ^ 63
    · rw [regionBitmapSize_of_lt hsign]
      split at hprev <;> split <;> omega
    · have hsize := regionBitmapSize_le (m.entries t).length
      rw [if_pos (by omega)] at hprev
      rw [if_neg (by omega)]
      omega

/-- **The layout does not wrap around.** -/
theorem metadataSize_lt : m.regionArraySize + m.bitmapOffset m.entryCount < 2 ^ 64 := by
  have hbits := m.bitmapOffset_le le_rfl
  have hsum := m.lengthSum_lt le_rfl
  have hcount := m.entryCount_le
  unfold regionArraySize sizeofPmmRegion
  split at hbits <;> omega

/-- The required pages, without the reductions. -/
theorem requiredPages_eq :
    m.requiredPages
      = (m.regionArraySize + (m.lengthSum m.entryCount / 4096 + 7) / 8 + 4095) / 4096 := by
  unfold requiredPages pmmGetNumRequiredPages pmmDetectMemory regionArraySize
  rw [m.pmmMemorySizeByte_eq le_rfl]
  have hsum := m.lengthSum_lt le_rfl
  have hcount := m.entryCount_le
  unfold sizeofPmmRegion
  dsimp only
  omega

theorem requiredPages_lt : m.requiredPages * 4096 < 2 ^ 64 := by
  have hsum := m.lengthSum_lt le_rfl
  have hcount := m.entryCount_le
  rw [requiredPages_eq]
  unfold regionArraySize sizeofPmmRegion
  omega

/-! ## Pages of a map -/

/-- The address of a page of an entry. -/
def pageAddress (i k : ℕ) : ℕ := (m.entries i).base + k * 4096

/-- **Different pages have different addresses.** -/
theorem pageAddress_inj {i j k l : ℕ} (hi : i < m.entryCount) (hj : j < m.entryCount)
    (hk : k < m.pages i) (hl : l < m.pages j) (h : m.pageAddress i k = m.pageAddress j l) :
    i = j ∧ k = l := by
  unfold pageAddress pages at *
  obtain hlt | heq | hgt := lt_trichotomy i j
  · have := m.sorted i j hlt hj
    omega
  · subst heq
    omega
  · have := m.sorted j i hgt hi
    omega

/-- An address of one entry lies in no other. -/
theorem eq_of_mem_entry {i j a : ℕ} (hi : i < m.entryCount) (hj : j < m.entryCount)
    (hia : (m.entries i).base ≤ a) (hia' : a < (m.entries i).base + (m.entries i).length)
    (hja : (m.entries j).base ≤ a) (hja' : a < (m.entries j).base + (m.entries j).length) :
    i = j := by
  obtain hlt | heq | hgt := lt_trichotomy i j
  · have := m.sorted i j hlt hj
    omega
  · exact heq
  · have := m.sorted j i hgt hi
    omega

end Memmap

/-! ## The layout of a state -/

/-- **The regions are those of the map**, and their bitmaps lie one behind the
other after the region array. -/
structure HasLayout (m : Memmap) (p : Pmm) : Prop where
  /-- One region for each entry. -/
  numRegions_eq : p.numRegions = m.entryCount
  /-- The base is copied. -/
  base_eq : ∀ i < m.entryCount, (p.regions i).base = (m.entries i).base
  /-- The length is copied. -/
  length_eq : ∀ i < m.entryCount, (p.regions i).length = (m.entries i).length
  /-- The type is copied. -/
  type_eq : ∀ i < m.entryCount, (p.regions i).type = (m.entries i).type
  /-- The size of the bitmap is that of the length. -/
  bitmapSize_eq : ∀ i < m.entryCount,
    (p.regions i).bitmapSize = regionBitmapSize (m.entries i).length
  /-- The bitmap lies behind the array and the bitmaps before it. -/
  bitmap_eq : ∀ i < m.entryCount, (p.regions i).bitmap
    = Bitmap.byteAddress p.regionsPtr (m.regionArraySize + m.bitmapOffset i)

namespace HasLayout

variable {m : Memmap} {p : Pmm}

/-- A byte of a bitmap as an offset from the region array. -/
theorem byteAddress_bitmap (h : HasLayout m p) {i : ℕ} (hi : i < m.entryCount) (b : ℕ) :
    Bitmap.byteAddress (p.regions i).bitmap b
      = Bitmap.byteAddress p.regionsPtr (m.regionArraySize + m.bitmapOffset i + b) := by
  rw [h.bitmap_eq i hi, Bitmap.byteAddress_byteAddress]

/-- The offset of a byte of a bitmap is below the end of the data. -/
theorem offset_lt (h : HasLayout m p) {i b : ℕ} (hi : i < m.entryCount)
    (hb : b < (p.regions i).bitmapSize) :
    m.bitmapOffset i + b < m.bitmapOffset (i + 1) := by
  rw [h.bitmapSize_eq i hi] at hb
  rw [m.bitmapOffset_succ]
  omega

/-- **Bytes of two bitmaps are two bytes.** -/
theorem byteAddress_ne (h : HasLayout m p) {i j b c : ℕ} (hi : i < m.entryCount)
    (hj : j < m.entryCount) (hij : i ≠ j) (hb : b < (p.regions i).bitmapSize)
    (hc : c < (p.regions j).bitmapSize) :
    Bitmap.byteAddress (p.regions i).bitmap b ≠ Bitmap.byteAddress (p.regions j).bitmap c := by
  have hbi := h.offset_lt hi hb
  have hcj := h.offset_lt hj hc
  have htotal := m.metadataSize_lt
  have hendi : m.bitmapOffset (i + 1) ≤ m.bitmapOffset m.entryCount := m.bitmapOffset_mono hi
  have hendj : m.bitmapOffset (j + 1) ≤ m.bitmapOffset m.entryCount := m.bitmapOffset_mono hj
  rw [h.byteAddress_bitmap hi, h.byteAddress_bitmap hj, Ne,
    Bitmap.byteAddress_inj (by omega) (by omega)]
  obtain hlt | hgt := Nat.lt_or_gt_of_ne hij
  · have : m.bitmapOffset (i + 1) ≤ m.bitmapOffset j := m.bitmapOffset_mono hlt
    omega
  · have : m.bitmapOffset (j + 1) ≤ m.bitmapOffset i := m.bitmapOffset_mono hgt
    omega

/-- **The bits of two pages are two bits.** -/
theorem bitNe (h : HasLayout m p) {i j k l : ℕ} (hi : i < m.entryCount) (hj : j < m.entryCount)
    (hne : ¬ (j = i ∧ l = k)) (hk : k / 8 < (p.regions i).bitmapSize)
    (hl : l / 8 < (p.regions j).bitmapSize) :
    Bitmap.BitNe (p.regions i).bitmap k (p.regions j).bitmap l := by
  by_cases hij : j = i
  · subst hij
    have hsize := regionBitmapSize_le (m.entries j).length
    rw [h.bitmapSize_eq j hj] at hk hl
    exact Bitmap.bitNe_of_ne (by omega) (by omega) fun e => hne ⟨rfl, e⟩
  · exact Or.inl (h.byteAddress_ne hj hi hij hl hk)

/-- The layout says nothing of the counters and the memory. -/
theorem withFreePages (h : HasLayout m p) (i f : ℕ) (mem : ByteMemory) :
    HasLayout m (p.withFreePages i f mem) := by
  constructor
  · exact h.numRegions_eq
  all_goals
    intro j hj
    obtain ⟨g, hg⟩ := p.regions_withFreePages i f mem j
    rw [hg]
  · exact h.base_eq j hj
  · exact h.length_eq j hj
  · exact h.type_eq j hj
  · exact h.bitmapSize_eq j hj
  · exact h.bitmap_eq j hj

end HasLayout
