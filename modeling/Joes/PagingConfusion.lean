import Joes.PagingRefinement

/-!
# Pages of another size in the way

The walks of `paging_map_page` and `paging_unmap_page` test the present bit of
an entry and nothing else. `paging_resolve_virtual_address` and
`paging_clone_page_table` test `page_size` as well: for them a large page ends
the walk. So where the leaf of a larger page lies above the level a call is
about, the call goes on into the frame of that page, reading its words as
entries; and where a call for a large page finds a table, it takes the pointer
for the leaf.

`pagingSizeConfusion_rejected_iff` goes through the combinations and finds one
in which both calls refuse and touch nothing.
-/

open PageTableEntry RadixHeap

variable {σ : Type} {A : PageAllocator σ} {hhdm : BitVec 64} {pml4 : TablePtr}
variable {s : Machine σ}

/-- **The walk for a page meets one of another size**: the leaf of a larger
page above it, or a table where its own leaf belongs. -/
def SizeConfusion (hhdm : BitVec 64) (pml4 : TablePtr) (size : PageSize) (virt : BitVec 64)
    (s : Machine σ) : Prop :=
  (∃ size' e, size.shift < size'.shift ∧ pageSlot hhdm s.mem pml4 (pagePath size' virt) = .leaf e) ∨
    ∃ t, pageSlot hhdm s.mem pml4 (pagePath size virt) = .table t

/-- **Both calls refuse**: they return `PAGING_ERROR` and leave memory and
memory manager as they were. -/
def Rejected (A : PageAllocator σ) (hhdm : BitVec 64) (pml4 : TablePtr) (phys virt : BitVec 64)
    (size : PageSize) (flags : BitVec 64) (s : Machine σ) : Prop :=
  ((pagingMapPage A hhdm pml4 phys virt size flags s).1 = .error
    ∧ (pagingMapPage A hhdm pml4 phys virt size flags s).2.mem = s.mem
    ∧ (pagingMapPage A hhdm pml4 phys virt size flags s).2.pmm = s.pmm) ∧
  ((pagingUnmapPage A hhdm pml4 virt size s).1 = .error
    ∧ (pagingUnmapPage A hhdm pml4 virt size s).2.mem = s.mem
    ∧ (pagingUnmapPage A hhdm pml4 virt size s).2.pmm = s.pmm)

/-! ## Unmapping goes ahead -/

/-- A table where the leaf of a large page belongs is taken for the leaf. -/
theorem pagingUnmapPage_of_table {size : PageSize} {virt : BitVec 64} {t : TablePtr}
    (h : pageSlot hhdm s.mem pml4 (pagePath size virt) = .table t) :
    (pagingUnmapPage A hhdm pml4 virt size s).1 = .ok := by
  unfold pagingUnmapPage
  cases size with
  | gb1 =>
    obtain ⟨pdpr, hpdpr, -, hp₁, -, -⟩ := entry_of_pageSlot_table (p := [_]) h
    obtain ⟨hp₀, ha₀⟩ := entry_of_pageSlot_pdpr hpdpr
    simp [hp₀, ha₀, hp₁]
  | mb2 =>
    obtain ⟨pd, hpd, -, hp₂, -, -⟩ := entry_of_pageSlot_table (p := [_, _]) h
    obtain ⟨pdpr, hpdpr, -, hp₁, -, ha₁⟩ := entry_of_pageSlot_table (p := [_]) hpd
    obtain ⟨hp₀, ha₀⟩ := entry_of_pageSlot_pdpr hpdpr
    simp [hp₀, ha₀, hp₁, ha₁, hp₂]
  | kb4 =>
    -- below a PT there is no table
    obtain ⟨-, -, hd, -⟩ := entry_of_pageSlot_table (p := [_, _, _]) h
    simp at hd

/-- Under a 2 MB page, a 4 kB page is unmapped: a word of the frame is changed
in its place. -/
theorem pagingUnmapPage_of_leaf_mb2 {virt : BitVec 64} {e : PageTableEntry}
    (h : pageSlot hhdm s.mem pml4 (pagePath .mb2 virt) = .leaf e) :
    (pagingUnmapPage A hhdm pml4 virt .kb4 s).1 = .ok := by
  unfold pagingUnmapPage
  obtain ⟨pd, hpd, -, -, hp₂, -, rfl⟩ := entry_of_pageSlot_leaf (p := [_, _]) h
  obtain ⟨pdpr, hpdpr, -, hp₁, -, ha₁⟩ := entry_of_pageSlot_table (p := [_]) hpd
  obtain ⟨hp₀, ha₀⟩ := entry_of_pageSlot_pdpr hpdpr
  simp [hp₀, ha₀, hp₁, ha₁, hp₂]

/-- **Under a 1 GB page**, unmapping a smaller one depends on the word of the
frame that is read as an entry of a PD. -/
theorem pagingUnmapPage_of_leaf_gb1 {size : PageSize} {virt : BitVec 64} {e : PageTableEntry}
    (h : pageSlot hhdm s.mem pml4 (pagePath .gb1 virt) = .leaf e) (hsize : size ≠ .gb1) :
    ((s.mem (e.tableAddress + hhdm) (pdIdx virt)).present = true →
      (pagingUnmapPage A hhdm pml4 virt size s).1 = .ok) ∧
    ((s.mem (e.tableAddress + hhdm) (pdIdx virt)).present = false →
      pagingUnmapPage A hhdm pml4 virt size s = (.error, s)) := by
  unfold pagingUnmapPage
  obtain ⟨pdpr, hpdpr, -, -, hp₁, -, rfl⟩ := entry_of_pageSlot_leaf (p := [_]) h
  obtain ⟨hp₀, ha₀⟩ := entry_of_pageSlot_pdpr hpdpr
  constructor
  · intro hword
    by_cases hmb2 : size = .mb2 <;> simp [hp₀, ha₀, hp₁, hsize, hword, hmb2]
  · intro hword
    simp [hp₀, ha₀, hp₁, hsize, hword]

/-! ## Mapping under a 1 GB page -/

/-- Mapping a 2 MB page under a 1 GB page stores the leaf in the frame, if the
word there reads as free. -/
theorem pagingMapPage_mb2_of_leaf_gb1 {virt : BitVec 64} {e : PageTableEntry}
    (h : pageSlot hhdm s.mem pml4 (pagePath .gb1 virt) = .leaf e) (phys flags : BitVec 64)
    (hword : (s.mem (e.tableAddress + hhdm) (pdIdx virt)).present = false) :
    (pagingMapPageWithoutTlbInvalidation A hhdm pml4 phys virt .mb2 flags s).1 = .ok := by
  unfold pagingMapPageWithoutTlbInvalidation
  obtain ⟨pdpr, hpdpr, -, -, hp₁, -, rfl⟩ := entry_of_pageSlot_leaf (p := [_]) h
  obtain ⟨hp₀, ha₀⟩ := entry_of_pageSlot_pdpr hpdpr
  simp [nextTable_of_present _ hp₀, ha₀, nextTable_of_present _ hp₁, mapLeaf, hword]

/-- **Mapping a 4 kB page under a 1 GB page**, where the word of the frame reads
as free: unless the pointer made of the result of `pmm_alloc` is `NULL`, the
mapping succeeds or has written that word. -/
theorem pagingMapPage_kb4_of_leaf_gb1 {virt : BitVec 64} {e : PageTableEntry}
    (h : pageSlot hhdm s.mem pml4 (pagePath .gb1 virt) = .leaf e) (phys flags : BitVec 64)
    (hword : (s.mem (e.tableAddress + hhdm) (pdIdx virt)).present = false) :
    ((A.pmmAlloc s.pmm).1 + hhdm = 0#64 →
      pagingMapPageWithoutTlbInvalidation A hhdm pml4 phys virt .kb4 flags s
        = (.error, s.afterAlloc A)) ∧
    ((A.pmmAlloc s.pmm).1 + hhdm ≠ 0#64 →
      (pagingMapPageWithoutTlbInvalidation A hhdm pml4 phys virt .kb4 flags s).1 = .ok ∨
      (pagingMapPageWithoutTlbInvalidation A hhdm pml4 phys virt .kb4 flags s).2.mem ≠ s.mem) := by
  unfold pagingMapPageWithoutTlbInvalidation
  obtain ⟨pdpr, hpdpr, -, -, hp₁, -, rfl⟩ := entry_of_pageSlot_leaf (p := [_]) h
  obtain ⟨hp₀, ha₀⟩ := entry_of_pageSlot_pdpr hpdpr
  set pd := (s.mem pdpr (pdprIdx virt)).tableAddress + hhdm with hpd
  simp only [nextTable_of_present _ hp₀, ha₀, nextTable_of_present _ hp₁, ← hpd, reduceCtorEq,
    if_false]
  constructor
  · intro hnull
    simp [nextTable, hword, hnull]
  · intro hne
    simp only [nextTable, hword, if_true, if_neg hne]
    set entry := pagingCreateEntry ((A.pmmAlloc s.pmm).1 + hhdm - hhdm)
      (pagingFlagPresent ||| pagingFlagWritable) .pd .pointer with hentry
    have hpresent : entry.present = true := by
      rw [hentry, present_pagingCreateEntry]
      rfl
    set s₁ := ((s.afterAlloc A).zeroPage ((A.pmmAlloc s.pmm).1 + hhdm)).storeEntry pd
      (pdIdx virt) entry with hs₁
    unfold mapLeaf
    by_cases hleaf : (s₁.mem ((A.pmmAlloc s.pmm).1 + hhdm) (ptIdx virt)).present = true
    · -- the word has become the entry of a table, which is present
      rw [if_pos hleaf]
      refine Or.inr fun hmem => ?_
      have hread : (s₁.mem pd (pdIdx virt)).present = true := by
        rw [hs₁, Machine.mem_storeEntry_self, hpresent]
      rw [hmem, hword] at hread
      cases hread
    · rw [if_neg hleaf]
      exact Or.inl rfl

/-! ## The one combination that is rejected -/

/-- **When page-size confusion is rejected.** Where the walk meets a page of
another size, `paging_map_page` and `paging_unmap_page` both refuse and change
nothing exactly in this case: the page is a 4 kB page under a 1 GB leaf, the
word of the frame that is read as an entry of a PD has bit 0 clear, and
`pmm_alloc` gives a pointer that is `NULL` and keeps its state. -/
theorem pagingSizeConfusion_rejected_iff {size : PageSize} {virt : BitVec 64}
    (phys flags : BitVec 64) (h : SizeConfusion hhdm pml4 size virt s) :
    Rejected A hhdm pml4 phys virt size flags s ↔
      size = .kb4 ∧ ∃ e, pageSlot hhdm s.mem pml4 (pagePath .gb1 virt) = .leaf e
        ∧ (s.mem (e.tableAddress + hhdm) (pdIdx virt)).present = false
        ∧ (A.pmmAlloc s.pmm).1 + hhdm = 0#64 ∧ (A.pmmAlloc s.pmm).2 = s.pmm := by
  constructor
  · rintro ⟨⟨hmap, hmem, hpmm⟩, hunmap, -⟩
    replace hmap : (pagingMapPageWithoutTlbInvalidation A hhdm pml4 phys virt size flags s).1
        = .error := hmap
    have hnotOk : (pagingUnmapPage A hhdm pml4 virt size s).1 ≠ .ok := by
      rw [hunmap]
      simp
    rcases h with ⟨size', e, hlt, he⟩ | ⟨t, ht⟩
    · cases size' with
      | kb4 => cases size <;> exact absurd hlt (by decide)
      | mb2 =>
        have hsize : size = .kb4 := by cases size <;> first | rfl | exact absurd hlt (by decide)
        rw [hsize] at hnotOk
        exact absurd (pagingUnmapPage_of_leaf_mb2 he) hnotOk
      | gb1 =>
        have hsize : size ≠ .gb1 := by
          rintro rfl
          exact absurd hlt (by decide)
        have hword : (s.mem (e.tableAddress + hhdm) (pdIdx virt)).present = false := by
          by_contra hne
          exact hnotOk ((pagingUnmapPage_of_leaf_gb1 he hsize).1 (by simpa using hne))
        cases size with
        | gb1 => exact absurd rfl hsize
        | mb2 =>
          rw [pagingMapPage_mb2_of_leaf_gb1 he phys flags hword] at hmap
          cases hmap
        | kb4 =>
          obtain ⟨hnull, hpage⟩ := pagingMapPage_kb4_of_leaf_gb1 (A := A) he phys flags hword
          have hptr : (A.pmmAlloc s.pmm).1 + hhdm = 0#64 := by
            by_contra hne
            rcases hpage hne with hok | hchanged
            · rw [hok] at hmap
              cases hmap
            · exact hchanged hmem
          replace hpmm : (pagingMapPageWithoutTlbInvalidation A hhdm pml4 phys virt .kb4 flags
              s).2.pmm = s.pmm := hpmm
          rw [hnull hptr] at hpmm
          exact ⟨rfl, e, he, hword, hptr, hpmm⟩
    · exact absurd (pagingUnmapPage_of_table ht) hnotOk
  · rintro ⟨rfl, e, he, hword, hptr, hpmm⟩
    have hmap : pagingMapPage A hhdm pml4 phys virt .kb4 flags s = (.error, s.afterAlloc A) :=
      (pagingMapPage_kb4_of_leaf_gb1 he phys flags hword).1 hptr
    have hsize : PageSize.kb4 ≠ .gb1 := by simp
    have hunmap := (pagingUnmapPage_of_leaf_gb1 (A := A) he hsize).2 hword
    rw [Rejected, hmap, hunmap]
    exact ⟨⟨rfl, rfl, hpmm⟩, rfl, rfl, rfl⟩

/-- A memory manager with no page left. -/
def exhaustedAllocator : PageAllocator ℕ where
  pmmAlloc n := (0#64, n)
  pmmFree _ n := n

/-- A page table with one leaf, the second gigabyte mapped to the first. -/
def gigabyteMachine (hhdm : BitVec 64) (pml4 : TablePtr) : Machine ℕ :=
  (pagingMapPage bumpAllocator hhdm pml4 0x40000000#64 0#64 .gb1 0x83#64 zeroMachine).2

/-- The one combination, with an offset of 0 and no memory left. -/
theorem pagingSizeConfusion_rejected_iff_kb4 :
    Rejected exhaustedAllocator 0#64 0x100000#64 0x5000#64 0#64 .kb4 0x3#64
      (gigabyteMachine 0#64 0x100000#64) := by
  have hleaf : pageSlot 0#64 (gigabyteMachine 0#64 0x100000#64).mem 0x100000#64
      (pagePath .gb1 0#64) = .leaf 0x40000083#64 := by rfl
  refine (pagingSizeConfusion_rejected_iff 0x5000#64 0x3#64
    (Or.inl ⟨.gb1, _, by decide, hleaf⟩)).mpr ⟨rfl, _, hleaf, ?_, rfl, rfl⟩
  decide

/-- **Confusion that is not rejected.** The page table is a tree, its only leaf
is a 1 GB page, and mapping a 2 MB page under it succeeds: the leaf is stored
in the frame. -/
theorem pagingSizeConfusion_not_rejected :
    Unshared (entrySlot higherHalf) (gigabyteMachine higherHalf higherHalf).mem higherHalf ∧
      Canonical 0#64 ∧
      SizeConfusion higherHalf higherHalf .mb2 0#64 (gigabyteMachine higherHalf higherHalf) ∧
      ¬ Rejected bumpAllocator higherHalf higherHalf 0x200000#64 0#64 .mb2 0x83#64
        (gigabyteMachine higherHalf higherHalf) := by
  have hleaf : pageSlot higherHalf (gigabyteMachine higherHalf higherHalf).mem higherHalf
      (pagePath .gb1 0#64) = .leaf 0x40000083#64 := by rfl
  refine ⟨?_, by decide, Or.inl ⟨.gb1, _, by decide, hleaf⟩, fun h => ?_⟩
  · have hc : (PagingCall.map 0x40000000#64 0#64 .gb1 0x83#64).WellFormed :=
      ⟨by decide, by decide, by decide⟩
    exact ((pagingRun_zeroMachine hc).represents (by decide) fun _ => rfl).tree
  · exact absurd h.1.1 (by decide)
