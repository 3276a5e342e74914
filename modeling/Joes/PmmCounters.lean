import Joes.PmmCalls

/-!
# The counters and the bitmaps

Each region counts its free pages, and `pmm_alloc` skips a region whose counter
is zero. The two marking functions change the counter for every address in the
region, whatever the bit was before: the bit of a page that is marked again
does not change, but the counter does.

The counters agree with the bitmaps in every run in which each `pmm_free` is
for a page whose bit is set and the search of each `pmm_alloc` stops at a page
(`freePages_eq_clearCount`). Freeing a free page is enough for a counter that
is too large (`freePages_ne_clearCount`).
-/

/-- **The counters agree with the bitmaps**: the counter of each region is the
number of clear bits among those of its pages. -/
def CountersAgree (m : Memmap) (p : Pmm) : Prop :=
  ∀ i < m.entryCount, (p.regions i).freePages
    = Bitmap.clearCount p.mem (p.regions i).bitmap ((m.entries i).length / 4096)

namespace Memmap

/-- **No length is out of the ordinary**: none has the sign bit set, and an
entry of length zero starts neither at the address 0 nor at the manager's
data. -/
structure Ordinary (m : Memmap) : Prop where
  /-- Every length is positive as a `ptrdiff_t`. -/
  length_lt : ∀ i < m.entryCount, (m.entries i).length < 2 ^ 63
  /-- An empty entry does not hide another one. -/
  base_ne : ∀ i < m.entryCount, (m.entries i).length = 0 →
    (m.entries i).base ≠ 0 ∧ (m.entries i).base ≠ m.dataBase

end Memmap

namespace Pmm

/-- **A call that keeps the counters**: an allocation whose search stops at a
page, or a `pmm_free` for an address in a page that is marked as used. -/
def KeepsCount (m : Memmap) (p : Pmm) : PmmCall → Prop
  | .alloc => p.StopsAtPage
  | .free a => ∃ i k, i < m.entryCount ∧ k < m.pages i ∧ m.pageAddress i k ≤ a
      ∧ a < m.pageAddress i k + 4096 ∧ p.pageBit i k = true

end Pmm

variable {m : Memmap} {p q : Pmm}

/-- A bitmap has a bit for every page, if the length is positive. -/
theorem HasLayout.byte_lt (h : HasLayout m p) (ho : m.Ordinary) {i k : ℕ} (hi : i < m.entryCount)
    (hk : k < m.pages i) : k / 8 < (p.regions i).bitmapSize := by
  rw [h.bitmapSize_eq i hi, regionBitmapSize_of_lt (ho.length_lt i hi)]
  unfold Memmap.pages at hk
  omega

/-- The number of pages is far from an overflow. -/
theorem Memmap.Ordinary.pages_lt (ho : m.Ordinary) {i : ℕ} (hi : i < m.entryCount) :
    m.pages i < 2 ^ 51 := by
  have := ho.length_lt i hi
  unfold Memmap.pages
  omega

namespace CountersAgree

/-- **One counter at a time.** Counters still agree if one counter and the bits
of its region change together, and no other bit does. -/
theorem withFreePages (h : CountersAgree m p) {i f : ℕ} {mem : ByteMemory}
    (hf : f = Bitmap.clearCount mem (p.regions i).bitmap (m.pages i))
    (hother : ∀ j < m.entryCount, j ≠ i → ∀ l < m.pages j,
      Bitmap.bitAt mem (p.regions j).bitmap l = Bitmap.bitAt p.mem (p.regions j).bitmap l) :
    CountersAgree m (p.withFreePages i f mem) := by
  intro j hj
  by_cases hji : j = i
  · subst hji
    rw [Pmm.regions_withFreePages_self, Pmm.mem_withFreePages]
    exact hf
  · rw [Pmm.regions_withFreePages_of_ne _ _ _ _ hji, Pmm.mem_withFreePages, h j hj]
    exact (Bitmap.clearCount_congr (hother j hj hji)).symm

/-- Marking a free page as used takes one from both sides. -/
theorem withPageUsed (h : CountersAgree m p) (hl : HasLayout m p) (ho : m.Ordinary) {i k : ℕ}
    (hi : i < m.entryCount) (hk : k < m.pages i) (hclear : p.pageBit i k = false) :
    CountersAgree m (p.withPageUsed i k) := by
  have hlt := ho.pages_lt hi
  have hcount := Bitmap.clearCount_setBit hk (by omega) hclear
  have hle := Bitmap.clearCount_le p.mem (p.regions i).bitmap (m.pages i)
  have hfree : (p.regions i).freePages
    = Bitmap.clearCount p.mem (p.regions i).bitmap (m.pages i) := h i hi
  refine h.withFreePages ?_ fun j hj hji l hl' => Bitmap.bitAt_setBit_of_ne ?_
  · omega
  · exact hl.bitNe hi hj (fun e => hji e.1) (hl.byte_lt ho hi hk) (hl.byte_lt ho hj hl')

/-- Marking a used page as free adds one to both sides. -/
theorem withPageFree (h : CountersAgree m p) (hl : HasLayout m p) (ho : m.Ordinary) {i k : ℕ}
    (hi : i < m.entryCount) (hk : k < m.pages i) (hset : p.pageBit i k = true) :
    CountersAgree m (p.withPageFree i k) := by
  have hlt := ho.pages_lt hi
  have hcount := Bitmap.clearCount_clearBit hk (by omega) hset
  have hle := Bitmap.clearCount_le p.mem (p.regions i).bitmap (m.pages i)
  have hfree : (p.regions i).freePages
    = Bitmap.clearCount p.mem (p.regions i).bitmap (m.pages i) := h i hi
  refine h.withFreePages ?_ fun j hj hji l hl' => Bitmap.bitAt_clearBit_of_ne ?_
  · omega
  · exact hl.bitNe hi hj (fun e => hji e.1) (hl.byte_lt ho hi hk) (hl.byte_lt ho hj hl')

end CountersAgree

/-! ## The start -/

/-- The bits of a region that is ready. -/
theorem RegionsReady.pageBit_eq (h : RegionsReady m p) (ho : m.Ordinary) {i k : ℕ}
    (hi : i < m.entryCount) (hk : k < m.pages i) :
    p.pageBit i k = if (m.entries i).type = .usable then false else true := by
  have hbyte := h.bitmapByte_eq i hi (k / 8) (h.toHasLayout.byte_lt ho hi hk)
  have hbit : p.pageBit i k = (p.bitmapByte i (k / 8)).getLsbD (k % 8) := rfl
  rw [hbit, hbyte]
  split
  · exact BitVec.getLsbD_zero
  · exact (Bitmap.eq_allOnes_iff _).mp rfl (k % 8) (Nat.mod_lt k (by norm_num))

/-- The counters agree when the regions are ready. -/
theorem RegionsReady.countersAgree (h : RegionsReady m p) (ho : m.Ordinary) :
    CountersAgree m p := by
  intro i hi
  have hbits := fun k (hk : k < m.pages i) => h.pageBit_eq ho hi hk
  rw [h.freePages_eq i hi, regionPages_of_lt (ho.length_lt i hi)]
  split
  · next hu =>
    simp only [if_pos hu] at hbits
    exact (Bitmap.clearCount_of_clear hbits).symm
  · next hu =>
    simp only [if_neg hu] at hbits
    exact (Bitmap.clearCount_of_set hbits).symm

/-- Where no empty entry starts at the data, its pages are marked in its own
region. -/
theorem IsFirstAtData.eq_dataEntry {f : ℕ} (hf : IsFirstAtData m f) (ho : m.Ordinary)
    (hd : m.HoldsData m.dataEntry) : f = m.dataEntry := by
  obtain hlt | heq := Nat.lt_or_eq_of_le hf.le
  · have hsorted := m.sorted f m.dataEntry hlt hd.lt
    have hbase := hf.base_eq
    unfold Memmap.dataBase at hbase
    have hzero : (m.entries f).length = 0 := by omega
    exact absurd hf.base_eq (ho.base_ne f (lt_trans hlt hd.lt) hzero).2
  · exact heq

/-- **The counters agree after a successful initialization.** -/
theorem countersAgree_of_pmmInit {hhdm : BitVec 64} (ho : m.Ordinary)
    (h : (pmmInit m.toLimineMemmapResponse hhdm p).1 = .ok) :
    CountersAgree m (pmmInit m.toLimineMemmapResponse hhdm p).2 := by
  obtain ⟨hd, q, f, hready, hf, -, -, hp⟩ := pmmInit_ok h
  obtain rfl := hf.eq_dataEntry ho hd
  have hle := hd.requiredPages_le
  have hlt := ho.pages_lt hd.lt
  have hfree : (q.regions m.dataEntry).freePages = m.pages m.dataEntry := by
    rw [hready.freePages_eq _ hd.lt, if_pos hd.usable, regionPages_of_lt (ho.length_lt _ hd.lt)]
    rfl
  have hclear : ∀ l < m.pages m.dataEntry, q.pageBit m.dataEntry l = false := by
    intro l hl
    rw [hready.pageBit_eq ho hd.lt hl, if_pos hd.usable]
  have hcount := Bitmap.clearCount_setBits hle (by omega)
    fun l (hl : l < m.requiredPages) => hclear l (by omega)
  rw [Bitmap.clearCount_of_clear hclear] at hcount
  rw [hp]
  refine (hready.countersAgree ho).withFreePages ?_ fun j hj hji l hl =>
    Bitmap.bitAt_setBits_of_ne fun k hk => ?_
  · rw [hfree, Pmm.countDown_eq hle (by omega)]
    omega
  · exact hready.toHasLayout.bitNe hd.lt hj (fun e => hji e.1)
      (hready.toHasLayout.byte_lt ho hd.lt (by omega)) (hready.toHasLayout.byte_lt ho hj hl)

/-! ## Every run -/

/-- **Each call that keeps the counters does so.** -/
theorem CountersAgree.call (h : CountersAgree m p) (hl : HasLayout m p) (ho : m.Ordinary)
    {c : PmmCall} (hc : p.KeepsCount m c) (hq : p.call c = some q) :
    HasLayout m q ∧ CountersAgree m q := by
  cases c with
  | alloc =>
    obtain rfl := Option.some.inj hq
    obtain ⟨rc, bc, halloc⟩ | ⟨i, k, rc, bc, hi, hk, -, hclear, halloc⟩ :=
      hl.pmmAlloc_of_stopsAtPage hc
    · rw [halloc]
      exact ⟨hl.withCaches rc bc, h⟩
    · rw [halloc]
      have hl' := hl.withCaches rc bc
      have h' : CountersAgree m (p.withCaches rc bc) := h
      exact ⟨hl'.withFreePages _ _ _, h'.withPageUsed hl' ho hi hk hclear⟩
  | free a =>
    obtain ⟨i, k, hi, hk, ha, ha', hset⟩ := hc
    unfold Pmm.call at hq
    dsimp only at hq
    obtain hfree | ⟨j, hji, hbase, hlength, -⟩ := hl.pmmFree_of_mem hi hk ha ha'
    · rw [hfree] at hq
      obtain rfl := Option.some.inj hq
      exact ⟨hl.withFreePages _ _ _, h.withPageFree hl ho hi hk hset⟩
    · exact absurd hbase (ho.base_ne j (lt_trans hji hi) hlength).1

/-- **The counters agree with the bitmaps in every run that keeps them.** -/
theorem freePages_eq_clearCount (m : Memmap) (hhdm : BitVec 64) (p : Pmm)
    (h : (pmmInit m.toLimineMemmapResponse hhdm p).1 = .ok) (ho : m.Ordinary) (q : Pmm)
    (hrun : Reaches Pmm.call (Pmm.KeepsCount m) (pmmInit m.toLimineMemmapResponse hhdm p).2 q) :
    CountersAgree m q := by
  have hstart : HasLayout m (pmmInit m.toLimineMemmapResponse hhdm p).2
      ∧ CountersAgree m (pmmInit m.toLimineMemmapResponse hhdm p).2 :=
    ⟨(guarded_of_pmmInit h).2.toHasLayout, countersAgree_of_pmmInit ho h⟩
  exact (hrun.invariant (P := fun s => HasLayout m s ∧ CountersAgree m s) hstart
    fun s c t hs hc ht => hs.2.call hs.1 ho hc ht).2

/-- A map with one entry is an ordinary one. -/
theorem ordinary_singleEntryMap {n : Fin 16} (hn : n.val ≠ 0) : (singleEntryMap n).Ordinary := by
  constructor
  · intro i _
    have hlt := n.isLt
    show n.val * 4096 < 2 ^ 63
    omega
  · intro i _ hzero
    have hzero' : n.val * 4096 = 0 := hzero
    omega

/-- The witness of `freePages_eq_clearCount`: one allocation from a map with
eight pages. -/
theorem freePages_eq_clearCount_eight :
    ∃ q, Reaches Pmm.call (Pmm.KeepsCount (singleEntryMap 8))
        (pmmInit (singleEntryMap 8).toLimineMemmapResponse 0#64 bootPmm).2 q
      ∧ (q.regions 0).freePages = 6 ∧ CountersAgree (singleEntryMap 8) q := by
  have hok : (pmmInit (singleEntryMap 8).toLimineMemmapResponse 0#64 bootPmm).1
      = .ok := by decide
  have hs := (guarded_of_pmmInit hok).2.toHasLayout.stopsAtPage_of_dvd singleEntryMap_dvd
  have hcall : ((pmmInit (singleEntryMap 8).toLimineMemmapResponse 0#64
      bootPmm).2.call .alloc).map (fun q => (q.regions 0).freePages) = some 6 := by
    decide +kernel
  obtain ⟨q, hq, hfree⟩ := Option.map_eq_some_iff.mp hcall
  have hrun : Reaches Pmm.call (Pmm.KeepsCount (singleEntryMap 8))
      (pmmInit (singleEntryMap 8).toLimineMemmapResponse 0#64 bootPmm).2 q :=
    Relation.ReflTransGen.single ⟨.alloc, hs, hq⟩
  exact ⟨q, hrun, hfree,
    freePages_eq_clearCount _ _ _ hok (ordinary_singleEntryMap (by decide)) q hrun⟩

/-! ## A page that is freed twice -/

/-- A call whose address, if any, lies in a page of some region. -/
def Memmap.InPages (m : Memmap) : PmmCall → Prop
  | .alloc => True
  | .free a => ∃ i k, i < m.entryCount ∧ k < m.pages i ∧ m.pageAddress i k ≤ a
      ∧ a < m.pageAddress i k + 4096

/-- **The counters do not agree in every run.** Of a map with two pages one is
free. Freeing it once more makes the counter two. -/
theorem freePages_ne_clearCount :
    (pmmInit (singleEntryMap 2).toLimineMemmapResponse 0#64 bootPmm).1 = .ok
      ∧ ∃ q, Reaches Pmm.call (fun _ c => (singleEntryMap 2).InPages c)
          (pmmInit (singleEntryMap 2).toLimineMemmapResponse 0#64 bootPmm).2 q
        ∧ (q.regions 0).freePages = 2 ∧ ¬ CountersAgree (singleEntryMap 2) q := by
  refine ⟨by decide, ?_⟩
  have hcall : ((pmmInit (singleEntryMap 2).toLimineMemmapResponse 0#64
      bootPmm).2.call (.free 0x101000)).map (fun q => ((q.regions 0).freePages,
        Bitmap.clearCount q.mem (q.regions 0).bitmap 2)) = some (2, 1) := by
    decide +kernel
  obtain ⟨q, hq, hcounts⟩ := Option.map_eq_some_iff.mp hcall
  have hin : (singleEntryMap 2).InPages (.free 0x101000) :=
    ⟨0, 1, by decide, by decide, by decide, by decide⟩
  obtain ⟨hfree, hclear⟩ := Prod.mk.inj hcounts
  refine ⟨q, Relation.ReflTransGen.single ⟨_, hin, hq⟩, hfree, fun hagree => ?_⟩
  have h := hagree 0 (by decide)
  have hpages : ((singleEntryMap 2).entries 0).length / 4096 = 2 := by decide
  rw [hpages, hclear, hfree] at h
  exact absurd h (by norm_num)
