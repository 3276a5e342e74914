import Joes.PagingShortage

/-!
# Addresses that the entries have no bits for

An entry keeps 28 bits of a page's number, so of an address the lower 40 bits come back
(`toNat_pageBase_pagingCreateEntry`), and no address resolves to one that needs more
(`pagingResolveVirtualAddress_lt`). A mapping to such an address is refused nowhere. It fails
only as every mapping does, if `pmm_alloc` gives out on the way and the code gets to see it.

So there are two cases. If there is a page for each table that is missing on the way, the
mapping succeeds, and the address comes back exactly if it is below `2 ^ 40`. If there is not,
the mapping returns `PAGING_ERROR`. For the address that was to be mapped there is nothing to
find then, and for the others nothing has changed, unless one of the tables that were linked in
before shows as a page (`GaveUp.notTruncated_iff`). Put together this is the exact condition
under which a mapping does not truncate (`pagingMapPage_notTruncated_iff`).
-/

open PageTableEntry RadixHeap

variable {σ : Type} {A : PageAllocator σ} {hhdm : BitVec 64} {pml4 : TablePtr}
variable {s s' : Machine σ} {used : Set TablePtr}

/-! ## Addresses beyond the field -/

/-- Every address that is resolved is below `2 ^ 40`. -/
theorem pageBase_lt (size : PageSize) (e : PageTableEntry) : (e.pageBase size).toNat < 2 ^ 40 := by
  cases size with
  | kb4 =>
    have h := (BitField.read e 12 28).isLt
    simp only [pageBase, BitVec.toNat_shiftLeft, BitVec.toNat_setWidth, Nat.shiftLeft_eq]
    omega
  | mb2 =>
    have h := (BitField.read e 21 19).isLt
    simp only [pageBase, BitVec.toNat_shiftLeft, BitVec.toNat_setWidth, Nat.shiftLeft_eq]
    omega
  | gb1 =>
    have h := (BitField.read e 30 10).isLt
    simp only [pageBase, BitVec.toNat_shiftLeft, BitVec.toNat_setWidth, Nat.shiftLeft_eq]
    omega

theorem pagingResolveVirtualAddress_lt (virt : BitVec 64) (s : Machine σ) :
    (pagingResolveVirtualAddress hhdm pml4 virt s).toNat < 2 ^ 40 := by
  by_cases h : ∃ size e, pageSlot hhdm s.mem pml4 (pagePath size virt) = .leaf e
  · obtain ⟨size, e, he⟩ := h
    rw [pagingResolveVirtualAddress_of_leaf he]
    exact pageBase_lt size e
  · rw [pagingResolveVirtualAddress_of_no_leaf fun size => ?_]
    · decide
    · cases hs : pageSlot hhdm s.mem pml4 (pagePath size virt) with
      | leaf e => exact absurd ⟨size, e, hs⟩ h
      | empty => rfl
      | table t => rfl

/-- **The leaf of a 4 kB page has the lower 40 bits** of the address it was
built from. -/
theorem toNat_pageBase_pagingCreateEntry {phys : BitVec 64} (halign : phys.toNat % 4096 = 0)
    (flags : BitVec 64) :
    ((pagingCreateEntry phys flags .pt .page).pageBase .kb4).toNat = phys.toNat % 2 ^ 40 := by
  rw [pageBase, pagingCreateEntry, BitField.read_write _ _ _ (by decide), BitVec.toNat_shiftLeft,
    BitVec.toNat_setWidth, BitVec.toNat_setWidth, BitVec.toNat_ushiftRight, Nat.shiftLeft_eq,
    Nat.shiftRight_eq_div_pow]
  omega

/-- **A mapping does not truncate silently**: it returns `PAGING_ERROR` and
every address resolves to what it did, or the address mapped resolves to the
one it was mapped to. -/
def NotTruncated (A : PageAllocator σ) (hhdm : BitVec 64) (pml4 : TablePtr)
    (phys virt flags : BitVec 64) (s : Machine σ) : Prop :=
  let result := pagingMapPage A hhdm pml4 phys virt .kb4 flags s
  (result.1 = .error ∧ ∀ v, pagingResolveVirtualAddress hhdm pml4 v result.2
      = pagingResolveVirtualAddress hhdm pml4 v s)
    ∨ pagingResolveVirtualAddress hhdm pml4 virt result.2 = phys

/-- The slots an unmapped address leaves to a 4 kB page: no leaf above, and
nothing at the page. -/
theorem free_of_unmapped {virt : BitVec 64}
    (hvirt : ∀ size, (pageSlot hhdm s.mem pml4 (pagePath size virt)).leaf? = none) :
    (∀ q, q <+: tablePath .kb4 virt → (pageSlot hhdm s.mem pml4 q).leaf? = none)
      ∧ pageSlot hhdm s.mem pml4 (pagePath .kb4 virt) = .empty := by
  constructor
  · intro q hq
    cases hs : pageSlot hhdm s.mem pml4 q with
    | leaf e =>
      obtain ⟨size, rfl⟩ := exists_size_of_leaf_above hq hs
      rw [← hvirt size, hs]
    | empty => rfl
    | table t => rfl
  · cases hs : pageSlot hhdm s.mem pml4 (pagePath .kb4 virt) with
    | leaf e =>
      have hnone := hvirt .kb4
      rw [hs] at hnone
      cases hnone
    | empty => rfl
    | table t => exact absurd (length_le_of_pageSlot_table hs) (by simp [PageSize.pathLength])

/-! ## What a mapping truncates -/

/-- **What is given up changes no translation** exactly if no link shows, and the address that
was to be mapped resolves to 0. -/
theorem GaveUp.notTruncated_iff {last : TablePtr} {links : ℕ} {virt phys flags : BitVec 64}
    (h : GaveUp hhdm pml4 last links (tablePath .kb4 virt) s s')
    (hrun : pagingMapPage A hhdm pml4 phys virt .kb4 flags s = (.error, s')) :
    NotTruncated A hhdm pml4 phys virt flags s ↔
      phys = 0#64 ∨ ¬ LinksShow hhdm pml4 last links s := by
  obtain ⟨q, i, t, hpath, ht, hstop⟩ := h.stops
  have hprefix : q ++ [i] <+: pagePath .kb4 virt :=
    hpath.trans (pagePath_eq_snoc .kb4 virt ▸ List.prefix_append _ _)
  have hzero := pagingResolveVirtualAddress_of_no_leaf (leaf?_eq_none_of_stop ht hstop hprefix)
  unfold NotTruncated
  rw [hrun]
  dsimp only
  rw [hzero, or_comm, and_iff_right rfl]
  refine or_congr eq_comm ?_
  constructor
  · -- a link that shows is a page at an address that was not mapped
    intro hsame hshow
    obtain ⟨v, hnone, e, he, hbase⟩ := h.shown hshow
    have hv := hsame v
    rw [pagingResolveVirtualAddress_of_leaf he, pagingResolveVirtualAddress_of_no_leaf hnone] at hv
    exact hbase hv
  · intro hnot v
    by_cases hleaf : ∃ size e, pageSlot hhdm s.mem pml4 (pagePath size v) = .leaf e
    · obtain ⟨size, e, he⟩ := hleaf
      rw [pagingResolveVirtualAddress_of_leaf he,
        pagingResolveVirtualAddress_of_leaf (h.kept _ _ he)]
    · have hnone : ∀ size, (pageSlot hhdm s.mem pml4 (pagePath size v)).leaf? = none := by
        intro size
        by_contra hsome
        obtain ⟨e, he⟩ := Option.ne_none_iff_exists'.mp hsome
        exact hleaf ⟨size, e, Slot.leaf?_eq_some.mp he⟩
      have hnone' : ∀ size, (pageSlot hhdm s'.mem pml4 (pagePath size v)).leaf? = none := by
        intro size
        by_contra hsome
        obtain ⟨e, he⟩ := Option.ne_none_iff_exists'.mp hsome
        exact hleaf ⟨size, e, h.hidden hnot _ _ (Slot.leaf?_eq_some.mp he)⟩
      rw [pagingResolveVirtualAddress_of_no_leaf hnone,
        pagingResolveVirtualAddress_of_no_leaf hnone']

/-- **When a mapping does not truncate.** No address resolves to one from `2 ^ 40` on, whatever
`pmm_alloc` returns. Let it return pages that are no tables, or `NULL`. With a page for each
missing table, a 4 kB page mapped at an unmapped address resolves to what it was mapped to if
that is below `2 ^ 40`, and otherwise it is truncated. If there are too few, the mapping is
refused, and the translations are what they were unless a link shows, which it cannot in a
tree. -/
theorem pagingMapPage_notTruncated_iff (hw : hhdm.toNat + 2 ^ 40 ≤ 2 ^ 64)
    {virt phys flags : BitVec 64} (halign : phys.toNat % 4096 = 0)
    (hvirt : ∀ size, (pageSlot hhdm s.mem pml4 (pagePath size virt)).leaf? = none)
    (hp : flags.getLsbD 0 = true) :
    let n := missingTables hhdm s.mem (pageSteps .kb4 virt) pml4
    let pages := pagesBeforeNull A hhdm n s.pmm
    let last := lastTable hhdm s.mem (pageSteps .kb4 virt) pml4
    (pagingResolveVirtualAddress hhdm pml4 virt
        (pagingMapPage A hhdm pml4 phys virt .kb4 flags s).2 = phys → phys.toNat < 2 ^ 40) ∧
      (FreshOrNull A hhdm n (pageTables hhdm s.mem pml4) s.pmm →
        (NotTruncated A hhdm pml4 phys virt flags s ↔
          if pages = n then phys.toNat < 2 ^ 40
          else phys = 0#64 ∨ ¬ LinksShow hhdm pml4 last pages s) ∧
        (Unshared (entrySlot hhdm) s.mem pml4 → pages ≠ n →
          NotTruncated A hhdm pml4 phys virt flags s)) := by
  intro n pages last
  have hlt : pagingResolveVirtualAddress hhdm pml4 virt
      (pagingMapPage A hhdm pml4 phys virt .kb4 flags s).2 = phys → phys.toNat < 2 ^ 40 := by
    intro h
    rw [← h]
    exact pagingResolveVirtualAddress_lt _ _
  refine ⟨hlt, fun hpages => ?_⟩
  obtain ⟨habove, hfree⟩ := free_of_unmapped hvirt
  have hflags : LeafFlags .kb4 flags := ⟨hp, fun h => absurd rfl h⟩
  rcases pagingMapPage_outcome hw subset_rfl hpages hflags habove hfree with
    ⟨hall, s₁, hrun, hslot⟩ | ⟨hfew, -, s₁, hrun, hgave⟩
  · refine ⟨?_, fun _ hne => absurd hall hne⟩
    rw [if_pos hall]
    constructor
    · rintro (⟨herror, -⟩ | h)
      · rw [pagingMapPage, hrun] at herror
        cases herror
      · exact hlt h
    · intro hphys
      right
      rw [pagingMapPage, hrun, pagingResolveVirtualAddress_of_leaf hslot]
      refine BitVec.eq_of_toNat_eq ?_
      rw [PageSize.level, toNat_pageBase_pagingCreateEntry halign, Nat.mod_eq_of_lt hphys]
  · have hiff := hgave.notTruncated_iff hrun
    refine ⟨?_, fun htree _ => ?_⟩
    · rw [if_neg (Nat.ne_of_lt hfew)]
      exact hiff
    · exact hiff.mpr (.inr (not_linksShow htree (by simp [pageSteps]) habove hfew.le))

/-- A memory manager with one page. -/
def scarceAllocator : PageAllocator ℕ where
  pmmAlloc n := (if n = 1 then 0x1000#64 else 0#64, n + 1)
  pmmFree _ n := n

/-- A page of device memory below the end of the first terabyte is mapped. With the direct map
at 0 and one page for three tables, one behind it is refused. -/
theorem pagingMapPage_notTruncated_iff_device :
    NotTruncated bumpAllocator higherHalf higherHalf 0xfffffff000#64 0x5000#64 0x3#64
        zeroMachine ∧
      NotTruncated scarceAllocator 0#64 0x8000#64 0x10000000000#64 0x5000#64 0x3#64
        zeroMachine := by
  have hempty : ∀ hhdm pml4 i, entrySlot hhdm 0 (zeroMachine.mem pml4 i) = .empty :=
    fun _ _ _ => entrySlot_of_not_present present_zero _
  have hmany : FreshOrNull bumpAllocator higherHalf 3
      (pageTables higherHalf zeroMachine.mem higherHalf) zeroMachine.pmm := by
    rw [pageTables, tables_eq_root_of_empty (hempty _ _)]
    simp only [FreshOrNull, Set.mem_insert_iff, Set.mem_singleton_iff]
    decide
  have hscarce : FreshOrNull scarceAllocator 0#64 3
      (pageTables 0#64 zeroMachine.mem 0x8000#64) zeroMachine.pmm := by
    rw [pageTables, tables_eq_root_of_empty (hempty _ _)]
    simp only [FreshOrNull, Set.mem_insert_iff, Set.mem_singleton_iff]
    decide
  constructor
  · obtain ⟨-, hiff⟩ := @pagingMapPage_notTruncated_iff ℕ bumpAllocator higherHalf higherHalf
      zeroMachine (by decide) 0x5000#64 0xfffffff000#64 0x3#64 (by decide)
      (fun _ => leaf?_eq_none_of_root (hempty _ _) _) (by decide)
    refine (hiff hmany).1.mpr ?_
    rw [if_pos (by decide)]
    decide
  · obtain ⟨-, hiff⟩ := @pagingMapPage_notTruncated_iff ℕ scarceAllocator 0#64 0x8000#64
      zeroMachine (by decide) 0x5000#64 0x10000000000#64 0x3#64 (by decide)
      (fun _ => leaf?_eq_none_of_root (hempty _ _) _) (by decide)
    exact (hiff hscarce).2 (unshared_of_root_empty (hempty _ _)) (by decide)

/-- **An address that is truncated**: a page mapped to the first one behind a
terabyte resolves to 0. -/
theorem pagingMapPage_truncated :
    (∀ size, (pageSlot higherHalf zeroMachine.mem higherHalf (pagePath size 0x5000#64)).leaf?
        = none) ∧
      ¬ NotTruncated bumpAllocator higherHalf higherHalf 0x10000000000#64 0x5000#64 0x3#64
        zeroMachine := by
  have hempty : ∀ i, entrySlot higherHalf 0 (zeroMachine.mem higherHalf i) = .empty :=
    fun _ => entrySlot_of_not_present present_zero _
  refine ⟨fun _ => leaf?_eq_none_of_root hempty _, ?_⟩
  rintro (⟨herror, -⟩ | h)
  · exact absurd herror (by decide)
  · exact absurd h (by decide)
