import Joes.PagingConfusion

/-!
# Running out of pages while mapping

`pmm_alloc` returns `NULL` when no page is left. `paging_map_page` adds the
offset of the direct map to that result before it compares it with `NULL`, so
with an offset other than 0 the test never sees the failure: the pointer is
taken for a page, cleared and linked into the table. That page is the first one
of physical memory, which nobody handed out.

What is followed is the trace: whatever a mapping adds to it, a failed
allocation comes with a `memset` of physical page 0 (`NullWiped`). That is an
invariant of `nextTable`, hence of the descent, hence of the mapping.
-/

open PageTableEntry RadixHeap

variable {σ : Type} {A : PageAllocator σ} {hhdm : BitVec 64} {pml4 : TablePtr}
variable {s s' s'' : Machine σ}

/-- What has been added to the trace since a state. -/
def Machine.eventsSince (s s' : Machine σ) : List MemoryEvent :=
  s'.trace.take (s'.trace.length - s.trace.length)

theorem Machine.eventsSince_eq {new : List MemoryEvent} (h : s'.trace = new ++ s.trace) :
    s.eventsSince s' = new := by
  rw [eventsSince, h, List.length_append, Nat.add_sub_cancel, List.take_left']
  rfl

/-- **Failure is harmless**: an error is returned, every address resolves to
what it did, and what was written is a table of the page table or a page that
`pmm_alloc` handed out. -/
def OutOfMemoryHarmless (A : PageAllocator σ) (hhdm : BitVec 64) (pml4 : TablePtr)
    (phys virt : BitVec 64) (size : PageSize) (flags : BitVec 64) (s : Machine σ) : Prop :=
  let result := pagingMapPage A hhdm pml4 phys virt size flags s
  let events := s.eventsSince result.2
  result.1 = .error
    ∧ (∀ v, pagingResolveVirtualAddress hhdm pml4 v result.2
        = pagingResolveVirtualAddress hhdm pml4 v s)
    ∧ ∀ t, (.zero t ∈ events ∨ ∃ i, .store t i ∈ events) →
        t ∈ pageTables hhdm s.mem pml4 ∨ ∃ page ≠ 0#64, .alloc page ∈ events ∧ t = page + hhdm

/-- **A failed allocation comes with a cleared page 0** in what one state adds
to the trace of another. -/
def NullWiped (hhdm : BitVec 64) (s s' : Machine σ) : Prop :=
  ∃ new, s'.trace = new ++ s.trace ∧ (.alloc 0#64 ∈ new → .zero hhdm ∈ new)

theorem NullWiped.refl (s : Machine σ) : NullWiped hhdm s s :=
  ⟨[], rfl, fun h => absurd h List.not_mem_nil⟩

theorem NullWiped.trans (h : NullWiped hhdm s s') (h' : NullWiped hhdm s' s'') :
    NullWiped hhdm s s'' := by
  obtain ⟨new, htrace, hnew⟩ := h
  obtain ⟨new', htrace', hnew'⟩ := h'
  refine ⟨new' ++ new, by rw [htrace', htrace, List.append_assoc], fun hmem => ?_⟩
  rcases List.mem_append.mp hmem with hmem | hmem
  · exact List.mem_append_left _ (hnew' hmem)
  · exact List.mem_append_right _ (hnew hmem)

/-- **The step of a descent**: a pointer made of `NULL` passes for a page. -/
theorem nullWiped_nextTable (hne : hhdm ≠ 0#64) (level : PageTableLevel) (t : TablePtr)
    (i : TableIndex) (s : Machine σ) : NullWiped hhdm s (nextTable A hhdm level t i s).2 := by
  by_cases hp : (s.mem t i).present = true
  · rw [nextTable_of_present level hp]
    exact NullWiped.refl s
  · have hfree : (s.mem t i).present = false := by simpa using hp
    by_cases hptr : (A.pmmAlloc s.pmm).1 + hhdm = 0#64
    · -- the pointer is `NULL`, so the result of `pmm_alloc` is not
      refine ⟨[.alloc (A.pmmAlloc s.pmm).1], ?_, fun hmem => ?_⟩
      · simp [nextTable, hfree, hptr, Machine.afterAlloc]
      · have hnull : 0#64 = (A.pmmAlloc s.pmm).1 := by simpa using hmem
        rw [← hnull, BitVec.zero_add] at hptr
        exact absurd hptr hne
    · refine ⟨[.store t i, .zero ((A.pmmAlloc s.pmm).1 + hhdm), .alloc (A.pmmAlloc s.pmm).1],
        ?_, fun hmem => ?_⟩
      · simp [nextTable, hfree, hptr, Machine.afterAlloc, Machine.zeroPage, Machine.storeEntry]
      · have hnull : 0#64 = (A.pmmAlloc s.pmm).1 := by simpa using hmem
        rw [← hnull, BitVec.zero_add]
        simp

/-- The induction of a descent. -/
theorem nullWiped_nextTables (hne : hhdm ≠ 0#64) (steps : List (PageTableLevel × TableIndex))
    (t : TablePtr) (s : Machine σ) : NullWiped hhdm s (nextTables A hhdm steps t s).2 := by
  induction steps generalizing t s with
  | nil => exact NullWiped.refl s
  | cons step steps ih =>
    obtain ⟨level, i⟩ := step
    have hstep := nullWiped_nextTable (A := A) hne level t i s
    unfold nextTables
    rcases hnext : nextTable A hhdm level t i s with ⟨_ | u, s₁⟩
    · rwa [hnext] at hstep
    · rw [hnext] at hstep
      exact hstep.trans (ih u s₁)

/-- **A mapping as a whole.** -/
theorem nullWiped_pagingMapPage (hne : hhdm ≠ 0#64) (phys virt : BitVec 64) (size : PageSize)
    (flags : BitVec 64) (s : Machine σ) :
    NullWiped hhdm s (pagingMapPage A hhdm pml4 phys virt size flags s).2 := by
  have hdown := nullWiped_nextTables (A := A) hne (pageSteps size virt) pml4 s
  unfold pagingMapPage
  rw [pagingMapPage_eq_nextTables]
  rcases hnext : nextTables A hhdm (pageSteps size virt) pml4 s with ⟨_ | t, s₁⟩
  · rwa [hnext] at hdown
  · rw [hnext] at hdown
    refine hdown.trans ?_
    show NullWiped hhdm s₁ (mapLeaf size.level t (leafIdx size virt) phys flags s₁).2
    unfold mapLeaf
    by_cases hp : (s₁.mem t (leafIdx size virt)).present = true
    · rw [if_pos hp]
      exact NullWiped.refl s₁
    · rw [if_neg hp]
      exact ⟨[.store t (leafIdx size virt)], rfl, fun hmem => by simp at hmem⟩

/-- **Failure is never harmless.** If one of the allocations of a mapping fails
and the offset of the direct map is not 0, physical page 0 is cleared – which,
unless the page table has a table there, is a page neither of the page table
nor handed out. -/
theorem pagingMapPage_outOfMemory (hne : hhdm ≠ 0#64) (phys virt : BitVec 64) (size : PageSize)
    (flags : BitVec 64)
    (hnull : .alloc 0#64 ∈ s.eventsSince (pagingMapPage A hhdm pml4 phys virt size flags s).2) :
    .zero hhdm ∈ s.eventsSince (pagingMapPage A hhdm pml4 phys virt size flags s).2
      ∧ (hhdm ∉ pageTables hhdm s.mem pml4 →
          ¬ OutOfMemoryHarmless A hhdm pml4 phys virt size flags s) := by
  obtain ⟨new, htrace, hnew⟩ :
      NullWiped hhdm s (pagingMapPage A hhdm pml4 phys virt size flags s).2 :=
    nullWiped_pagingMapPage hne phys virt size flags s
  have hevents := Machine.eventsSince_eq htrace
  have hzero : .zero hhdm ∈ s.eventsSince (pagingMapPage A hhdm pml4 phys virt size flags s).2 := by
    rw [hevents] at hnull ⊢
    exact hnew hnull
  refine ⟨hzero, fun htable hharm => ?_⟩
  rcases hharm.2.2 hhdm (Or.inl hzero) with hmem | ⟨page, hpage, -, hptr⟩
  · exact htable hmem
  · refine hpage ?_
    have hsum : page + hhdm = 0#64 + hhdm := by rw [← hptr, BitVec.zero_add]
    exact (BitVec.add_left_inj hhdm).mp hsum

/-- The empty machine with no page left: mapping a page clears page 0. -/
theorem pagingMapPage_outOfMemory_zeroMachine :
    ¬ OutOfMemoryHarmless exhaustedAllocator higherHalf (higherHalf + 0x1000#64) 0x5000#64 0#64 .kb4
      0x3#64 zeroMachine := by
  refine (pagingMapPage_outOfMemory (by decide) 0x5000#64 0#64 .kb4 0x3#64 (by decide)).2 ?_
  rw [pageTables, tables_eq_root_of_empty fun _ => entrySlot_of_not_present present_zero _]
  decide

/-- **A failure that is not reported**: with no page left, mapping the second
4 kB of an empty page table succeeds, and physical page 0 is cleared. -/
theorem pagingMapPage_outOfMemory_not_harmless :
    .alloc 0#64 ∈ zeroMachine.eventsSince (pagingMapPage exhaustedAllocator higherHalf
        (higherHalf + 0x1000#64) 0x5000#64 0x1000#64 .kb4 0x3#64 zeroMachine).2 ∧
      ¬ OutOfMemoryHarmless exhaustedAllocator higherHalf (higherHalf + 0x1000#64) 0x5000#64
        0x1000#64 .kb4 0x3#64 zeroMachine := by
  refine ⟨by decide, fun h => ?_⟩
  exact absurd h.1 (by decide)
