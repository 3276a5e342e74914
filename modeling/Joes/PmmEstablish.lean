import Joes.PmmCounters

/-!
# What `pmm_init` establishes

On a map without empty entries, whose lengths add up to less than `2 ^ 63` and
whose usable entries do not start at the address 0, the initialization succeeds
exactly if some usable entry has room for the required pages: the loop that
marks them finds the region of the data by its base, and has no error. The bits
and the counters are then those of the memory map
(`pmmInit_establishes`).

The search for an entry multiplies the pages by their size in 64 bits. On such a map the
product does not wrap around, so what is found is the first entry with room
(`findPmmEntry_eq_some_iff`). With it found, there are two more places to fail at
(`pmmInit_eq_ok`). One takes a base of 0 for no entry at all, and usable memory does not
start there. The other is the marking of the pages, which looks for a region by that
base; bases are different in a map of ordinary memory, so it comes to the region of the
entry, and the pages are inside.

The bits are written twice, first for each region by its type, and then for the required
pages. The second loop leaves all other bits alone, because no two pages share one
(`pageBit_pmmInit`). The counters are those of `pmm_init` in general
(`countersAgree_of_pmmInit`).
-/

namespace Memmap

/-- **A map of ordinary memory**: no entry is empty, the lengths add up without
a sign, and the address 0 is not usable memory. -/
structure IsMemory (m : Memmap) : Prop where
  /-- No entry is empty. -/
  length_pos : ∀ i < m.entryCount, 0 < (m.entries i).length
  /-- The lengths add up. -/
  lengthSum_lt : m.lengthSum m.entryCount < 2 ^ 63
  /-- Usable memory does not start at the address 0. -/
  base_ne_zero : ∀ i < m.entryCount, (m.entries i).type = .usable → (m.entries i).base ≠ 0

variable {m : Memmap}

theorem length_le_lengthSum {i t : ℕ} (hi : i < t) : (m.entries i).length ≤ m.lengthSum t :=
  Finset.single_le_sum (f := fun j => (m.entries j).length) (fun _ _ => Nat.zero_le _)
    (Finset.mem_range.mpr hi)

/-- Such a map is ordinary. -/
theorem IsMemory.ordinary (h : m.IsMemory) : m.Ordinary := by
  constructor
  · intro i hi
    exact lt_of_le_of_lt (length_le_lengthSum hi) h.lengthSum_lt
  · intro i hi hzero
    have := h.length_pos i hi
    omega

/-- **The entry has room for the required pages.** -/
def HasRoom (m : Memmap) (i : ℕ) : Prop :=
  (m.entries i).type = .usable ∧ 4096 * m.requiredPages ≤ (m.entries i).length

/-- The test of `pmm_init`. -/
theorem decide_hasRoom (i : ℕ) :
    decide ((m.entries i).type = .usable
      ∧ m.requiredPages * 4096 % 2 ^ 64 ≤ (m.entries i).length) = true ↔ m.HasRoom i := by
  unfold HasRoom
  rw [decide_eq_true_eq, Nat.mod_eq_of_lt m.requiredPages_lt, Nat.mul_comm]

/-- The entry of the data is the first one with room. -/
theorem findPmmEntry_eq_some_iff {d : ℕ} :
    findPmmEntry m.toLimineMemmapResponse m.requiredPages = some d
      ↔ d < m.entryCount ∧ m.HasRoom d ∧ ∀ j < d, ¬ m.HasRoom j := by
  unfold findPmmEntry
  rw [List.find?_range_eq_some, decide_hasRoom, List.mem_range, ← and_assoc,
    and_comm (a := m.HasRoom d), and_assoc]
  refine and_congr_right fun _ => and_congr_right fun _ => forall₂_congr fun j _ => ?_
  rw [Bool.not_eq_true', ← Bool.not_eq_true, decide_hasRoom]

theorem findPmmEntry_isSome_iff :
    (findPmmEntry m.toLimineMemmapResponse m.requiredPages).isSome
      ↔ ∃ i < m.entryCount, m.HasRoom i := by
  unfold findPmmEntry
  rw [List.find?_isSome]
  simp only [List.mem_range, decide_hasRoom]

end Memmap

variable {m : Memmap}

/-- **Where an entry has room the initialization succeeds.** -/
theorem pmmInit_eq_ok (hm : m.IsMemory) {hhdm : BitVec 64} {p : Pmm}
    (hroom : ∃ i < m.entryCount, m.HasRoom i) :
    (pmmInit m.toLimineMemmapResponse hhdm p).1 = .ok := by
  obtain ⟨d, hfind⟩ := Option.isSome_iff_exists.mp (Memmap.findPmmEntry_isSome_iff.mpr hroom)
  have hdata : m.dataEntry = d := by
    unfold Memmap.dataEntry
    rw [hfind]
    rfl
  subst hdata
  obtain ⟨hlt, ⟨husable, -⟩, -⟩ := Memmap.findPmmEntry_eq_some_iff.mp hfind
  have hbase := hm.base_ne_zero _ hlt husable
  have hd := holdsData_of_findPmmEntry hfind hbase
  unfold pmmInit
  dsimp only
  have hreq : pmmGetNumRequiredPages (pmmDetectMemory m.toLimineMemmapResponse).1
      (pmmDetectMemory m.toLimineMemmapResponse).2 = m.requiredPages := rfl
  rw [hreq, hfind]
  dsimp only
  rw [if_neg hbase]
  generalize hp₁ : ({ p with
    physToVirtOffset := hhdm
    numRegions := (pmmDetectMemory m.toLimineMemmapResponse).1
    memorySizePages := (pmmDetectMemory m.toLimineMemmapResponse).2 } : Pmm) = p₁
  have hn : p₁.numRegions = m.entryCount := by
    rw [← hp₁]
    rfl
  obtain ⟨q, f, hready, hf, hptr, -, heq⟩ := @initRegionStructs_eq m hhdm p₁ hlt hn
  obtain rfl := hf.eq_dataEntry hm.ordinary hd
  have hfits := hd.fits
  have hend := m.bounded _ hlt
  have hmark := Pmm.markRequiredPages_eq (hready.base_eq_dataBase hf hlt) hptr
    (by rw [hready.length_eq _ hlt]; exact hfits)
    (by rw [hready.base_eq _ hlt, hready.length_eq _ hlt]; exact hend)
  have hok : p₁.initRegionStructs m.toLimineMemmapResponse (m.entries m.dataEntry).base hhdm
      m.requiredPages = (.ok, q.withMarked m.dataEntry m.requiredPages) := heq.trans hmark
  rw [hok]

/-- **The bits after a successful initialization**: those of memory that is not
usable, and those of the required pages. -/
theorem pageBit_pmmInit (hm : m.IsMemory) {hhdm : BitVec 64} {p : Pmm}
    (h : (pmmInit m.toLimineMemmapResponse hhdm p).1 = .ok) {i k : ℕ} (hi : i < m.entryCount)
    (hk : k < m.pages i) :
    (pmmInit m.toLimineMemmapResponse hhdm p).2.pageBit i k = true
      ↔ (m.entries i).type ≠ .usable ∨ i = m.dataEntry ∧ k < m.requiredPages := by
  have ho := hm.ordinary
  obtain ⟨hd, q, f, hready, hf, -, -, hp⟩ := pmmInit_ok h
  obtain rfl := hf.eq_dataEntry ho hd
  have hstart := hready.pageBit_eq ho hi hk
  rw [hp]
  unfold Pmm.withMarked
  rw [Pmm.pageBit_withFreePages]
  by_cases hreq : i = m.dataEntry ∧ k < m.requiredPages
  · obtain ⟨rfl, hlt⟩ := hreq
    exact iff_of_true (Bitmap.bitAt_setBits_of_lt hlt) (Or.inr ⟨rfl, hlt⟩)
  · have hother : Bitmap.bitAt (Bitmap.setBits q.mem (q.regions m.dataEntry).bitmap
        m.requiredPages) (q.regions i).bitmap k = q.pageBit i k := by
      refine Bitmap.bitAt_setBits_of_ne fun l hl => ?_
      have hl' : l < m.pages m.dataEntry := lt_of_lt_of_le hl hd.requiredPages_le
      exact hready.toHasLayout.bitNe hd.lt hi (fun e => hreq ⟨e.1, e.2 ▸ hl⟩)
        (hready.toHasLayout.byte_lt ho hd.lt hl') (hready.toHasLayout.byte_lt ho hi hk)
    rw [hother, hstart, or_iff_left hreq]
    split
    · next hu => exact iff_of_false Bool.false_ne_true (not_not_intro hu)
    · next hu => exact iff_of_true rfl hu

/-- **`pmm_init` establishes the representation.** It succeeds exactly if some
usable entry has room for the required pages. Then the regions are those of the
map, the bits that are set are those of memory that is not usable and of the
required pages in the first entry with room, and every counter is the number of
clear bits. -/
theorem pmmInit_establishes (m : Memmap) (hm : m.IsMemory) (hhdm : BitVec 64) (p : Pmm) :
    ((pmmInit m.toLimineMemmapResponse hhdm p).1 = .ok ↔ ∃ i < m.entryCount, m.HasRoom i)
    ∧ ((pmmInit m.toLimineMemmapResponse hhdm p).1 = .ok →
      HasLayout m (pmmInit m.toLimineMemmapResponse hhdm p).2
      ∧ ∃ d < m.entryCount, m.HasRoom d ∧ (∀ j < d, ¬ m.HasRoom j)
        ∧ ∀ i < m.entryCount,
          (∀ k < (m.entries i).length / 4096,
            (pmmInit m.toLimineMemmapResponse hhdm p).2.pageBit i k = true
              ↔ (m.entries i).type ≠ .usable ∨ i = d ∧ k < m.requiredPages)
          ∧ ((pmmInit m.toLimineMemmapResponse hhdm p).2.regions i).freePages
            = Bitmap.clearCount (pmmInit m.toLimineMemmapResponse hhdm p).2.mem
                ((pmmInit m.toLimineMemmapResponse hhdm p).2.regions i).bitmap
                ((m.entries i).length / 4096)) := by
  have hdata : (pmmInit m.toLimineMemmapResponse hhdm p).1 = .ok →
      m.dataEntry < m.entryCount ∧ m.HasRoom m.dataEntry
        ∧ ∀ j < m.dataEntry, ¬ m.HasRoom j := by
    intro h
    have hd := (guarded_of_pmmInit h).1
    have hroom : m.HasRoom m.dataEntry := ⟨hd.usable, by rw [Nat.mul_comm]; exact hd.fits⟩
    obtain ⟨d, hfind⟩ := Option.isSome_iff_exists.mp
      (Memmap.findPmmEntry_isSome_iff.mpr ⟨_, hd.lt, hroom⟩)
    have heq : m.dataEntry = d := by
      unfold Memmap.dataEntry
      rw [hfind]
      rfl
    rw [heq]
    exact Memmap.findPmmEntry_eq_some_iff.mp hfind
  refine ⟨⟨fun h => ⟨_, (hdata h).1, (hdata h).2.1⟩, pmmInit_eq_ok hm⟩, fun h => ?_⟩
  obtain ⟨hlt, hroom, hfirst⟩ := hdata h
  exact ⟨(guarded_of_pmmInit h).2.toHasLayout, m.dataEntry, hlt, hroom, hfirst, fun i hi =>
    ⟨fun k hk => pageBit_pmmInit hm h hi hk, countersAgree_of_pmmInit hm.ordinary h i hi⟩⟩

/-- The witness of `pmmInit_establishes`: eight pages of usable memory. -/
theorem pmmInit_establishes_eight :
    ∃ i < (singleEntryMap 8).entryCount, (singleEntryMap 8).HasRoom i := by
  have hm : (singleEntryMap 8).IsMemory := by
    constructor
    · intro i _
      show 0 < 8 * 4096
      norm_num
    · decide
    · intro i _ _
      show 0x100000 ≠ 0
      norm_num
  exact (pmmInit_establishes (singleEntryMap 8) hm 0#64 bootPmm).1.mp (by decide)
