import Joes.PmmCalls
import Joes.PmmMetadata

/-!
# Memory that must never be handed out

Here the callers of the memory manager are arbitrary: they may free any
address. The type of a region is stored, but `pmm_alloc` does not look at it;
that it skips a region which is not usable rests on the bits and the counter
alone, and `pmm_free` changes both for every address that lies in some region.

So unusable memory stays out of reach exactly as long as nobody frees it. While
every `pmm_free` is for a page of usable memory outside the manager's own data,
or for an address that the lookup rejects, no page that is handed out meets an
unusable region or a byte of the manager's data
(`pmmAlloc_usable`). One `pmm_free` of a reserved address is enough to have it
handed out (`pmmAlloc_not_usable`).
-/

namespace Pmm

/-- **A call that frees nothing it should not**: an allocation whose search
stops at a page, a `pmm_free` for an address in a page of usable memory that
does not hold the manager's data, or one that the lookup rejects. -/
def Harmless (m : Memmap) (p : Pmm) : PmmCall → Prop
  | .alloc => p.StopsAtPage
  | .free a => p.getRegionContainingPage a = .notFound ∨
      ∃ i k, m.IsFreePage i k ∧ k / 8 < (p.regions i).bitmapSize
        ∧ m.pageAddress i k ≤ a ∧ a < m.pageAddress i k + 4096

/-- **What is handed out is usable**: no byte of the page lies in an entry that
is not usable, and none is a byte of the region array or of a bitmap. -/
def HandsOutUsable (m : Memmap) (p : Pmm) : Prop :=
  (pmmAlloc p).1 = 0 ∨ ∀ x, (pmmAlloc p).1 ≤ x → x < (pmmAlloc p).1 + 4096 →
    (∀ i < m.entryCount, (m.entries i).base ≤ x → x < (m.entries i).base + (m.entries i).length →
      (m.entries i).type = .usable)
    ∧ ∀ i ≤ p.numRegions, physToVirt x p.physToVirtOffset ∉ p.metadataRange i

end Pmm

namespace Guarded

variable {m : Memmap} {p q : Pmm}

/-- **Every harmless call keeps the guard.** -/
theorem call (h : Guarded m p) (hd : m.HoldsData m.dataEntry) {c : PmmCall}
    (hc : p.Harmless m c) (hq : p.call c = some q) : Guarded m q := by
  cases c with
  | alloc =>
    obtain rfl := Option.some.inj hq
    exact h.pmmAlloc hc
  | free a =>
    unfold Pmm.call at hq
    dsimp only at hq
    obtain hnot | ⟨i, k, hfree, hbyte, ha, ha'⟩ := hc
    · unfold pmmFree at hq
      rw [hnot] at hq
      obtain rfl := Option.some.inj hq
      exact h
    · obtain ⟨r, hr, hcases⟩ := h.pmmFree_clears hfree.lt hfree.page_lt ha ha'
      rw [hr] at hq
      obtain rfl : r = q := Option.some.inj hq
      obtain rfl | ⟨j, f, rfl⟩ := hcases
      · exact h
      · exact h.clearBit hd hfree hbyte j f

/-- Where the data fits, each byte of it lies in one of the required pages. -/
theorem exists_required_of_mem_metadataRange (h : Guarded m p) (hd : m.HoldsData m.dataEntry)
    (hfits : m.bytesRoundedEach ≤ m.requiredPages * 4096) {i x : ℕ} (hi : i ≤ m.entryCount)
    (hx : x < 2 ^ 64) (hmem : physToVirt x p.physToVirtOffset ∈ p.metadataRange i) :
    ∃ y < m.requiredPages * 4096, x = m.dataBase + y := by
  obtain ⟨y, -, hy, heq⟩ := (h.mem_metadataRange hi _).mp hmem
  have hend : m.partOffset (i + 1) ≤ m.bytesRoundedEach := m.partOffset_mono (Nat.succ_le_succ hi)
  have hlt : m.dataBase + m.requiredPages * 4096 < 2 ^ 64 := hd.end_lt
  refine ⟨y, by omega, ?_⟩
  rw [h.regionsPtr_eq, ← physToVirt_add] at heq
  unfold physToVirt at heq
  rw [BitVec.add_left_inj] at heq
  have hnat := congrArg BitVec.toNat heq
  rw [BitVec.toNat_ofNat, BitVec.toNat_ofNat] at hnat
  omega

/-- **A free page meets neither unusable memory nor the manager's data.** -/
theorem handsOutUsable (h : Guarded m p) (hd : m.HoldsData m.dataEntry)
    (hfits : m.bytesRoundedEach ≤ m.requiredPages * 4096) (hs : p.StopsAtPage) :
    p.HandsOutUsable m := by
  unfold Pmm.HandsOutUsable
  obtain ⟨rc, bc, halloc⟩ | ⟨i, k, rc, bc, hfree, -, -, halloc⟩ := h.pmmAlloc_cases hs
  · rw [halloc]
    exact Or.inl rfl
  · rw [halloc]
    refine Or.inr fun x hx hx' => ?_
    have hend := m.bounded i hfree.lt
    have hk := hfree.page_lt
    unfold Memmap.pages at hk
    unfold Memmap.pageAddress at hx hx'
    dsimp only at hx hx'
    have hin : (m.entries i).base ≤ x ∧ x < (m.entries i).base + (m.entries i).length := by
      omega
    refine ⟨fun j hj hj1 hj2 => ?_, fun j hj hmem => ?_⟩
    · obtain rfl := m.eq_of_mem_entry hj hfree.lt hj1 hj2 hin.1 hin.2
      exact hfree.usable
    · rw [h.numRegions_eq] at hj
      obtain ⟨y, hy, rfl⟩ :=
        h.exists_required_of_mem_metadataRange hd hfits hj (by omega) hmem
      have hroom := hd.fits
      have hbase : m.dataBase = (m.entries m.dataEntry).base := rfl
      obtain rfl := m.eq_of_mem_entry hfree.lt hd.lt hin.1 hin.2 (by omega) (by omega)
      refine hfree.not_required ⟨rfl, ?_⟩
      omega

end Guarded

/-- **Unusable memory is not handed out while nobody frees it.** After a
successful initialization in which the manager's data fits its pages, in every
run of harmless calls by arbitrary callers, what the next allocation hands out
is usable. -/
theorem pmmAlloc_usable (m : Memmap) (hhdm : BitVec 64) (p : Pmm)
    (h : (pmmInit m.toLimineMemmapResponse hhdm p).1 = .ok)
    (hfits : (m.bytesRoundedEach + 4095) / 4096 ≤ (m.bytesRoundedOnce + 4095) / 4096) (q : Pmm)
    (hrun : Reaches Pmm.call (Pmm.Harmless m) (pmmInit m.toLimineMemmapResponse hhdm p).2 q)
    (hs : q.StopsAtPage) : q.HandsOutUsable m := by
  obtain ⟨hd, hg⟩ := guarded_of_pmmInit h
  have hq : Guarded m q := hrun.invariant hg fun s c t hs hc ht => hs.call hd hc ht
  have hreq : m.requiredPages = (m.bytesRoundedOnce + 4095) / 4096 := m.requiredPages_eq
  exact hq.handsOutUsable hd (by omega) hs

/-- The witness of `pmmAlloc_usable`: a page of a map with eight pages was
freed that was free already. -/
theorem pmmAlloc_usable_eight :
    ∃ q, Reaches Pmm.call (Pmm.Harmless (singleEntryMap 8))
        (pmmInit (singleEntryMap 8).toLimineMemmapResponse 0#64 bootPmm).2 q
      ∧ (pmmAlloc q).1 = 0x101000 ∧ q.HandsOutUsable (singleEntryMap 8) := by
  have hok : (pmmInit (singleEntryMap 8).toLimineMemmapResponse 0#64 bootPmm).1
      = .ok := by decide
  obtain ⟨hd, hg⟩ := guarded_of_pmmInit hok
  have hfree : (singleEntryMap 8).IsFreePage 0 1 :=
    ⟨by decide, rfl, by decide, by decide⟩
  have hallowed : (pmmInit (singleEntryMap 8).toLimineMemmapResponse 0#64
      bootPmm).2.Harmless (singleEntryMap 8) (.free 0x101000) :=
    Or.inr ⟨0, 1, hfree, by decide, by decide, by decide⟩
  have hcall : ((pmmInit (singleEntryMap 8).toLimineMemmapResponse 0#64
      bootPmm).2.call (.free 0x101000)).map (fun q => (pmmAlloc q).1) = some 0x101000 := by
    decide +kernel
  obtain ⟨q, hq, halloc⟩ := Option.map_eq_some_iff.mp hcall
  have hs : q.StopsAtPage :=
    (hg.call hd hallowed hq).toHasLayout.stopsAtPage_of_dvd singleEntryMap_dvd
  have hrun : Reaches Pmm.call (Pmm.Harmless (singleEntryMap 8))
      (pmmInit (singleEntryMap 8).toLimineMemmapResponse 0#64 bootPmm).2 q :=
    Relation.ReflTransGen.single ⟨_, hallowed, hq⟩
  exact ⟨q, hrun, halloc, pmmAlloc_usable _ _ _ hok (by decide) q hrun hs⟩

/-! ## A reserved page that was freed -/

theorem reservedMap_sorted : 0x100000 + 4096 ≤ 0x101000 := by norm_num

theorem reservedMap_bounded : 0x101000 + 4096 < 2 ^ 64 := by norm_num

/-- A map with one usable page and a reserved one behind it. -/
def reservedMap : Memmap :=
  twoEntryMap ⟨0x100000, 4096, .usable⟩ ⟨0x101000, 4096, .reserved⟩
    reservedMap_sorted reservedMap_bounded

/-- **Freed reserved memory is handed out.** After `pmm_free` of the reserved
page, the next allocation returns it. -/
theorem pmmAlloc_not_usable :
    (pmmInit reservedMap.toLimineMemmapResponse 0#64 bootPmm).1 = .ok
      ∧ ∃ q, Reaches Pmm.call (fun _ _ => True)
          (pmmInit reservedMap.toLimineMemmapResponse 0#64 bootPmm).2 q
        ∧ (pmmAlloc q).1 = 0x101000 ∧ ¬ q.HandsOutUsable reservedMap := by
  refine ⟨by decide, ?_⟩
  have hrun : (runCalls Pmm.call (fun _ _ => True)
      (pmmInit reservedMap.toLimineMemmapResponse 0#64 bootPmm).2 [.free 0x101000]).map
      (fun q => (pmmAlloc q).1) = some 0x101000 := by decide +kernel
  obtain ⟨q, hq, halloc⟩ := Option.map_eq_some_iff.mp hrun
  refine ⟨q, reaches_of_runCalls hq, halloc, ?_⟩
  unfold Pmm.HandsOutUsable
  rw [halloc]
  rintro (h | h)
  · exact absurd h (by decide)
  · have husable := (h 0x101000 le_rfl (by norm_num)).1 1 (by decide) le_rfl (by decide)
    exact absurd husable (by decide)
