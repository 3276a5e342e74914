import Joes.PageTableEntry

/-!
# The paging module

`paging.c` reads and writes page tables through the higher-half direct map: a
physical page `p` is seen at the pointer `p + g_hhdm_offset`. The memory of a
`Machine` is that window, as a function from a pointer to a page and an index
to the 64-bit word stored there. All tables and all frames are pages of it, so
a walk that mistakes a frame for a table reads and writes the frame.

The physical memory manager is a parameter (`PageAllocator`): what
`paging.c` needs of it is that `pmm_alloc` returns an address or 0 and
`pmm_free` takes one back. `Machine.trace` records what the module does to
the outside – the pages it gets and gives back, the words and pages it writes –
newest first; no function reads it.

The functions below are those of the source, under its names. The block that
finds or creates the next table occurs three times in
`paging_map_page_without_tlb_invalidation`, with the level as the only
difference; it is `nextTable` here. The recursion of
`paging_clone_page_table` is unrolled over its four levels. Its index
variables are `static`, hence part of the state that is threaded through.
Logging and `invlpg` have no effect on this state and are left out.
-/

/-- A pointer to a page of the direct map. -/
abbrev TablePtr := BitVec 64

/-- `paging_error_codes_t`. -/
inductive PagingErrorCode where
  /-- `PAGING_OK` -/
  | ok
  /-- `PAGING_ERROR` -/
  | error
  deriving DecidableEq, Repr

/-- **The physical memory manager as paging sees it**: `pmm_alloc`, with 0 for
`NULL`, and `pmm_free`. -/
structure PageAllocator (σ : Type) where
  /-- The page handed out, and the manager's new state. -/
  pmmAlloc : σ → BitVec 64 × σ
  /-- The manager's state after a page was given back. -/
  pmmFree : BitVec 64 → σ → σ

/-- What the paging module does to the outside. -/
inductive MemoryEvent where
  /-- `pmm_alloc` returned this address. -/
  | alloc (page : BitVec 64)
  /-- `pmm_free` was called with this address. -/
  | free (page : BitVec 64)
  /-- `memset(table, 0, 0x1000)`. -/
  | zero (table : TablePtr)
  /-- An entry of a table was assigned to. -/
  | store (table : TablePtr) (idx : TableIndex)
  deriving DecidableEq

/-- The event is a call of `pmm_alloc`. -/
def MemoryEvent.isAlloc : MemoryEvent → Bool
  | alloc _ => true
  | _ => false

/-- The memory behind the direct map, the memory manager's state, and the
trace of what happened to both. -/
structure Machine (σ : Type) where
  /-- The word under an index of a page. -/
  mem : TablePtr → TableIndex → PageTableEntry
  /-- The state of the physical memory manager. -/
  pmm : σ
  /-- What happened so far, newest first. -/
  trace : List MemoryEvent

namespace Machine

variable {σ : Type}

/-- The state after a call of `pmm_alloc`. -/
def afterAlloc (A : PageAllocator σ) (s : Machine σ) : Machine σ :=
  { s with pmm := (A.pmmAlloc s.pmm).2, trace := .alloc (A.pmmAlloc s.pmm).1 :: s.trace }

/-- The state after a call of `pmm_free`. -/
def afterFree (A : PageAllocator σ) (page : BitVec 64) (s : Machine σ) : Machine σ :=
  { s with pmm := A.pmmFree page s.pmm, trace := .free page :: s.trace }

/-- `memset(table, 0, 0x1000)`. -/
def zeroPage (table : TablePtr) (s : Machine σ) : Machine σ :=
  { s with mem := Function.update s.mem table fun _ => 0#64, trace := .zero table :: s.trace }

/-- `table[idx] = e`. -/
def storeEntry (table : TablePtr) (idx : TableIndex) (e : PageTableEntry) (s : Machine σ) :
    Machine σ :=
  { s with
    mem := Function.update s.mem table (Function.update (s.mem table) idx e)
    trace := .store table idx :: s.trace }

/-- How often `pmm_alloc` was called so far. -/
def allocs (s : Machine σ) : ℕ := s.trace.countP MemoryEvent.isAlloc

@[simp] theorem allocs_afterAlloc (A : PageAllocator σ) (s : Machine σ) :
    (s.afterAlloc A).allocs = s.allocs + 1 :=
  List.countP_cons_of_pos rfl

@[simp] theorem allocs_zeroPage (t : TablePtr) (s : Machine σ) :
    (s.zeroPage t).allocs = s.allocs :=
  List.countP_cons_of_neg Bool.false_ne_true

@[simp] theorem allocs_storeEntry (t : TablePtr) (i : TableIndex) (e : PageTableEntry)
    (s : Machine σ) : (s.storeEntry t i e).allocs = s.allocs :=
  List.countP_cons_of_neg Bool.false_ne_true

@[simp] theorem mem_afterAlloc (A : PageAllocator σ) (s : Machine σ) :
    (s.afterAlloc A).mem = s.mem := rfl

@[simp] theorem mem_zeroPage_self (t : TablePtr) (s : Machine σ) (i : TableIndex) :
    (s.zeroPage t).mem t i = 0#64 := by
  simp [zeroPage]

theorem mem_zeroPage_of_ne {t u : TablePtr} (h : u ≠ t) (s : Machine σ) :
    (s.zeroPage t).mem u = s.mem u :=
  Function.update_of_ne h _ _

@[simp] theorem mem_storeEntry_self (t : TablePtr) (i : TableIndex) (e : PageTableEntry)
    (s : Machine σ) : (s.storeEntry t i e).mem t i = e := by
  simp [storeEntry]

theorem mem_storeEntry_of_ne_table {t u : TablePtr} (h : u ≠ t) (i : TableIndex)
    (e : PageTableEntry) (s : Machine σ) : (s.storeEntry t i e).mem u = s.mem u :=
  Function.update_of_ne h _ _

/-- A store changes the one word it names. -/
theorem mem_storeEntry_of_ne {t u : TablePtr} {i j : TableIndex} (h : (u, j) ≠ (t, i))
    (e : PageTableEntry) (s : Machine σ) : (s.storeEntry t i e).mem u j = s.mem u j := by
  by_cases hu : u = t
  · subst hu
    have hj : j ≠ i := fun hj => h (by rw [hj])
    simp [storeEntry, hj]
  · rw [mem_storeEntry_of_ne_table hu]

end Machine

open PageTableEntry

variable {σ : Type} (A : PageAllocator σ) (hhdm : BitVec 64)

/-! ## Mapping -/

/-- **The next table on a walk**, created if the entry is not present: the
block `paging_map_page_without_tlb_invalidation` runs for the PDPR, the PD and
the PT. The offset is added to the result of `pmm_alloc` before the pointer is
compared with `NULL`. -/
def nextTable (level : PageTableLevel) (table : TablePtr) (idx : TableIndex) (s : Machine σ) :
    Option TablePtr × Machine σ :=
  if (s.mem table idx).present = false then
    let next := (A.pmmAlloc s.pmm).1 + hhdm
    let s := s.afterAlloc A
    if next = 0#64 then
      (none, s)
    else
      let s := s.zeroPage next
      let s := s.storeEntry table idx (pagingCreateEntry (next - hhdm)
        (pagingFlagPresent ||| pagingFlagWritable) level .pointer)
      (some next, s)
  else
    (some ((s.mem table idx).tableAddress + hhdm), s)

/-- The last step of a mapping: the leaf must not be present yet. -/
def mapLeaf (level : PageTableLevel) (table : TablePtr) (idx : TableIndex)
    (phys flags : BitVec 64) (s : Machine σ) : PagingErrorCode × Machine σ :=
  if (s.mem table idx).present = true then
    (.error, s)
  else
    (.ok, s.storeEntry table idx (pagingCreateEntry phys flags level .page))

/-- `paging_map_page_without_tlb_invalidation`. -/
def pagingMapPageWithoutTlbInvalidation (pml4 : TablePtr) (phys virt : BitVec 64)
    (pageSize : PageSize) (flags : BitVec 64) (s : Machine σ) : PagingErrorCode × Machine σ :=
  match nextTable A hhdm .pml4 pml4 (pml4Idx virt) s with
  | (none, s) => (.error, s)
  | (some pdpr, s) =>
    if pageSize = .gb1 then
      mapLeaf .pdpr pdpr (pdprIdx virt) phys flags s
    else
      match nextTable A hhdm .pdpr pdpr (pdprIdx virt) s with
      | (none, s) => (.error, s)
      | (some pd, s) =>
        if pageSize = .mb2 then
          mapLeaf .pd pd (pdIdx virt) phys flags s
        else
          match nextTable A hhdm .pd pd (pdIdx virt) s with
          | (none, s) => (.error, s)
          | (some pt, s) => mapLeaf .pt pt (ptIdx virt) phys flags s

/-- `paging_map_page`: the TLB entry is invalidated after a success. -/
def pagingMapPage (pml4 : TablePtr) (phys virt : BitVec 64) (pageSize : PageSize)
    (flags : BitVec 64) (s : Machine σ) : PagingErrorCode × Machine σ :=
  pagingMapPageWithoutTlbInvalidation A hhdm pml4 phys virt pageSize flags s

/-! ## Resolving -/

/-- `paging_resolve_virtual_address`. -/
def pagingResolveVirtualAddress (pml4 : TablePtr) (virt : BitVec 64) (s : Machine σ) :
    BitVec 64 :=
  let pml4Entry := s.mem pml4 (pml4Idx virt)
  if pml4Entry.present = false then 0#64
  else
    let pdprEntry := s.mem (pml4Entry.tableAddress + hhdm) (pdprIdx virt)
    if pdprEntry.present = false then 0#64
    else if pdprEntry.pageSize = true then pdprEntry.pageBase .gb1
    else
      let pdEntry := s.mem (pdprEntry.tableAddress + hhdm) (pdIdx virt)
      if pdEntry.present = false then 0#64
      else if pdEntry.pageSize = true then pdEntry.pageBase .mb2
      else
        let ptEntry := s.mem (pdEntry.tableAddress + hhdm) (ptIdx virt)
        if ptEntry.present = false then 0#64 else ptEntry.pageBase .kb4

/-! ## Unmapping -/

/-- The indices of a table, in the order of the source's loops. -/
def tableIndices : List TableIndex := (List.range 512).map (BitVec.ofNat 9)

theorem mem_tableIndices (i : TableIndex) : i ∈ tableIndices :=
  List.mem_map.mpr ⟨i.toNat, List.mem_range.mpr i.isLt, by simp⟩

/-- The indices of a table are gone through in their order. -/
theorem pairwise_tableIndices : tableIndices.Pairwise (· < ·) := by
  rw [tableIndices, List.pairwise_map]
  refine List.pairwise_lt_range.imp_of_mem fun {i j} hi hj hij => ?_
  have hj' := List.mem_range.mp hj
  rw [BitVec.lt_def, BitVec.toNat_ofNat, BitVec.toNat_ofNat, Nat.mod_eq_of_lt (by omega),
    Nat.mod_eq_of_lt (by omega)]
  exact hij

/-- The loop of `paging_check_for_empty_table`: no entry is present. -/
def tableEmpty (table : TablePtr) (s : Machine σ) : Bool :=
  tableIndices.all fun idx => !(s.mem table idx).present

theorem tableEmpty_iff (table : TablePtr) (s : Machine σ) :
    tableEmpty table s = true ↔ ∀ idx, (s.mem table idx).present = false := by
  rw [tableEmpty, List.all_eq_true]
  constructor
  · intro h idx
    simpa using h idx (mem_tableIndices idx)
  · intro h idx _
    simp [h idx]

/-- `paging_check_for_empty_table`. -/
def pagingCheckForEmptyTable (table parentTable : TablePtr) (idxInParentTable : TableIndex)
    (s : Machine σ) : Machine σ :=
  if tableEmpty table s = true then
    (s.storeEntry parentTable idxInParentTable
      (s.mem parentTable idxInParentTable).clearPresent).afterFree A (table - hhdm)
  else s

/-- The tail of `paging_unmap_page` from the label `CHECK_FOR_EMPTY_PDPR`. -/
def checkForEmptyPdpr (pml4 pdpr : TablePtr) (virt : BitVec 64) (s : Machine σ) : Machine σ :=
  pagingCheckForEmptyTable A hhdm pdpr pml4 (pml4Idx virt) s

/-- The tail of `paging_unmap_page` from the label `CHECK_FOR_EMPTY_PD`. -/
def checkForEmptyPd (pml4 pdpr pd : TablePtr) (virt : BitVec 64) (s : Machine σ) : Machine σ :=
  checkForEmptyPdpr A hhdm pml4 pdpr virt
    (pagingCheckForEmptyTable A hhdm pd pdpr (pdprIdx virt) s)

/-- `paging_unmap_page`. -/
def pagingUnmapPage (pml4 : TablePtr) (virt : BitVec 64) (pageSize : PageSize) (s : Machine σ) :
    PagingErrorCode × Machine σ :=
  let pml4Entry := s.mem pml4 (pml4Idx virt)
  if pml4Entry.present = false then (.error, s)
  else
    let pdpr := pml4Entry.tableAddress + hhdm
    let pdprEntry := s.mem pdpr (pdprIdx virt)
    if pdprEntry.present = false then (.error, s)
    else if pageSize = .gb1 then
      (.ok, checkForEmptyPdpr A hhdm pml4 pdpr virt
        (s.storeEntry pdpr (pdprIdx virt) pdprEntry.clearPresent))
    else
      let pd := pdprEntry.tableAddress + hhdm
      let pdEntry := s.mem pd (pdIdx virt)
      if pdEntry.present = false then (.error, s)
      else if pageSize = .mb2 then
        (.ok, checkForEmptyPd A hhdm pml4 pdpr pd virt
          (s.storeEntry pd (pdIdx virt) pdEntry.clearPresent))
      else
        let pt := pdEntry.tableAddress + hhdm
        (.ok, checkForEmptyPd A hhdm pml4 pdpr pd virt
          (pagingCheckForEmptyTable A hhdm pt pd (pdIdx virt)
            (s.storeEntry pt (ptIdx virt) (s.mem pt (ptIdx virt)).clearPresent)))

/-! ## Cloning -/

/-- The state `paging_clone_page_table` works on: the machine and the `static`
index variables of the function. -/
structure CloneState (σ : Type) where
  machine : Machine σ
  pml4Idx : TableIndex
  pdprIdx : TableIndex
  pdIdx : TableIndex
  ptIdx : TableIndex

/-- The loop over the entries of an old table, skipping those that are not
present. -/
def forPresentEntries (table : TablePtr) (body : TableIndex → CloneState σ → CloneState σ)
    (s : CloneState σ) : CloneState σ :=
  tableIndices.foldl
    (fun s idx => if (s.machine.mem table idx).present = true then body idx s else s) s

/-- The leaf case of `paging_clone_page_table`: the entry is split into address
and flags and mapped at the address its indices make up. What the mapping
returns is dropped. -/
def cloneLeaf (newPml4 : TablePtr) (pageSize : PageSize) (entry : PageTableEntry)
    (virt : BitVec 64) (s : CloneState σ) : CloneState σ :=
  { s with
    machine := (pagingMapPageWithoutTlbInvalidation A hhdm newPml4 (entry.pageBase pageSize) virt
      pageSize (pagingGetFlagsFromEntry entry pageSize.level .page) s.machine).2 }

/-- `paging_clone_page_table` at level `PT`. -/
def clonePt (newPml4 pt : TablePtr) : CloneState σ → CloneState σ :=
  forPresentEntries pt fun idx s =>
    let s := { s with ptIdx := idx }
    cloneLeaf A hhdm newPml4 .kb4 (s.machine.mem pt idx)
      (pagingGetVirtAddressFromIndices s.pml4Idx s.pdprIdx s.pdIdx s.ptIdx) s

/-- `paging_clone_page_table` at level `PD`. -/
def clonePd (newPml4 pd : TablePtr) : CloneState σ → CloneState σ :=
  forPresentEntries pd fun idx s =>
    let s := { s with pdIdx := idx }
    let entry := s.machine.mem pd idx
    if entry.pageSize = true then
      cloneLeaf A hhdm newPml4 .mb2 entry
        (pagingGetVirtAddressFromIndices s.pml4Idx s.pdprIdx s.pdIdx 0) s
    else
      clonePt A hhdm newPml4 (entry.tableAddress + hhdm) s

/-- `paging_clone_page_table` at level `PDPR`. -/
def clonePdpr (newPml4 pdpr : TablePtr) : CloneState σ → CloneState σ :=
  forPresentEntries pdpr fun idx s =>
    let s := { s with pdprIdx := idx }
    let entry := s.machine.mem pdpr idx
    if entry.pageSize = true then
      cloneLeaf A hhdm newPml4 .gb1 entry
        (pagingGetVirtAddressFromIndices s.pml4Idx s.pdprIdx 0 0) s
    else
      clonePd A hhdm newPml4 (entry.tableAddress + hhdm) s

/-- The loop of `paging_clone_page_table` at level `PML4`. -/
def clonePml4 (newPml4 oldPml4 : TablePtr) : CloneState σ → CloneState σ :=
  forPresentEntries oldPml4 fun idx s =>
    let s := { s with pml4Idx := idx }
    clonePdpr A hhdm newPml4 ((s.machine.mem oldPml4 idx).tableAddress + hhdm) s

/-- **`paging_clone_page_table`**, with the in-out parameter `*new_pml4` as an
argument and a second result. -/
def pagingClonePageTable (oldPageTable newPml4 : TablePtr) (level : PageTableLevel)
    (s : CloneState σ) : PagingErrorCode × TablePtr × CloneState σ :=
  match level with
  | .pml4 =>
    if newPml4 = 0#64 then
      let next := (A.pmmAlloc s.machine.pmm).1 + hhdm
      let s := { s with machine := s.machine.afterAlloc A }
      if next = 0#64 then (.error, next, s)
      else (.ok, next, clonePml4 A hhdm next oldPageTable s)
    else (.ok, newPml4, clonePml4 A hhdm newPml4 oldPageTable s)
  | .pdpr => (.ok, newPml4, clonePdpr A hhdm newPml4 oldPageTable s)
  | .pd => (.ok, newPml4, clonePd A hhdm newPml4 oldPageTable s)
  | .pt => (.ok, newPml4, clonePt A hhdm newPml4 oldPageTable s)
