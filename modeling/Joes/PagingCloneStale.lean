import Joes.PagingCloneCopy

/-!
# What a clone inherits from stale memory

Called without a target, `paging_clone_page_table` takes a page from
`pmm_alloc` for the new PML4 and does not clear it. The tables below are cleared
when they are linked in, so that page is the only one whose old contents can
show: if it has no present entry, two runs on memories that differ in the free
pages only come to the same clone (`cloneOfNull_sameClone`, by the twins of
`PagingTwin`). If it has, they need not: a page whose entries all point
back to itself swallows every mapping and stays as it was
(`cloneOfNull_of_selfMap`).
-/

open PageTableEntry RadixHeap

variable {σ : Type} {A : PageAllocator σ} {hhdm : BitVec 64} {old root : TablePtr}
variable {s z : Machine σ} {F : Set TablePtr} {cs cx cz : CloneState σ}

/-- The present entry under an index of the table at a path. -/
def presentEntry (hhdm : BitVec 64) (root : TablePtr) (s : Machine σ) (p : List TableIndex)
    (i : TableIndex) : Option PageTableEntry :=
  match pageSlot hhdm s.mem root p with
  | .table t => if (s.mem t i).present = true then some (s.mem t i) else none
  | _ => none

/-- **Two page tables agree**: the same present entries can be reached, and
every address resolves alike. -/
def SameClone (hhdm : BitVec 64) (root : TablePtr) (s z : Machine σ) : Prop :=
  (∀ p i, presentEntry hhdm root s p i = presentEntry hhdm root z p i)
    ∧ ∀ v, pagingResolveVirtualAddress hhdm root v s = pagingResolveVirtualAddress hhdm root v z

/-- Twins agree. -/
theorem Twin.sameClone {K : Set TablePtr} (h : Twin hhdm root K s z) :
    SameClone hhdm root s z := by
  have hslots := h.slotAt_eq
  constructor
  · intro p i
    unfold presentEntry
    rw [show pageSlot hhdm z.mem root p = pageSlot hhdm s.mem root p from congrFun hslots p]
    cases hp : pageSlot hhdm s.mem root p with
    | empty => rfl
    | leaf e => rfl
    | table t =>
      have hsame := h.entries t (Or.inl (mem_tables hp)) i
      dsimp only
      rw [← hsame.present_eq]
      by_cases hpr : (s.mem t i).present = true
      · rw [if_pos hpr, if_pos hpr, hsame.eq_of_present hpr]
      · rw [if_neg hpr, if_neg hpr]
  · intro v
    refine pagingResolveVirtualAddress_congr (fun q => ?_) v
    rw [pageSlot, pageSlot, hslots]

/-- **Two states that differ in the free pages only.** -/
structure SameButFree (F : Set TablePtr) (cs cz : CloneState σ) : Prop where
  mem : ∀ t ∉ F, cz.machine.mem t = cs.machine.mem t
  pmm : cz.machine.pmm = cs.machine.pmm
  indices : cz.indices = cs.indices

/-- The page `pmm_alloc` is about to hand out, seen through the direct map. -/
def nextPage (A : PageAllocator σ) (hhdm : BitVec 64) (s : Machine σ) : TablePtr :=
  (A.pmmAlloc s.pmm).1 + hhdm

/-- The clone with no target. -/
def cloneOfNull (A : PageAllocator σ) (hhdm : BitVec 64) (old : TablePtr) (cs : CloneState σ) :
    PagingErrorCode × TablePtr × CloneState σ :=
  pagingClonePageTable A hhdm old 0#64 .pml4 cs

/-- It copies into the next page. -/
theorem cloneOfNull_eq (h : nextPage A hhdm cs.machine ≠ 0#64) :
    cloneOfNull A hhdm old cs = (.ok, nextPage A hhdm cs.machine,
      clonePml4 A hhdm (nextPage A hhdm cs.machine) old
        { cs with machine := cs.machine.afterAlloc A }) := by
  unfold nextPage at h ⊢
  unfold cloneOfNull pagingClonePageTable
  dsimp only
  rw [if_pos rfl, if_neg h]

/-- The first page it gets is fresh, and so are the others. -/
theorem freshPages_of_cloneOfNull {used : Set TablePtr}
    (h : FreshBetween A hhdm used cs.machine (cloneOfNull A hhdm old cs).2.2.machine) :
    (A.pmmAlloc cs.machine.pmm).1 ≠ 0#64 ∧ IsFrame .kb4 (A.pmmAlloc cs.machine.pmm).1
      ∧ nextPage A hhdm cs.machine ∉ used
      ∧ FreshPages A hhdm
        ((cloneOfNull A hhdm old cs).2.2.machine.allocs - (cs.machine.afterAlloc A).allocs)
        (insert (nextPage A hhdm cs.machine) used) (A.pmmAlloc cs.machine.pmm).2 := by
  have hmade : cs.machine.allocs + 1 ≤ (cloneOfNull A hhdm old cs).2.2.machine.allocs := by
    by_cases hnull : nextPage A hhdm cs.machine = 0#64
    · unfold nextPage at hnull
      unfold cloneOfNull pagingClonePageTable
      dsimp only
      rw [if_pos rfl, if_pos hnull, Machine.allocs_afterAlloc]
    · rw [cloneOfNull_eq hnull]
      dsimp only
      refine le_trans ?_ (mapRel_allocs.pml4 { cs with machine := cs.machine.afterAlloc A } _ rfl)
      rw [Machine.allocs_afterAlloc]
  have hfresh := h.pages
  rwa [show (cloneOfNull A hhdm old cs).2.2.machine.allocs - cs.machine.allocs
    = (cloneOfNull A hhdm old cs).2.2.machine.allocs - (cs.machine.afterAlloc A).allocs + 1 by
      rw [Machine.allocs_afterAlloc]; omega] at hfresh

/-! ## A page without present entries -/

/-- **A clone into a page without present entries** does not depend on what the
free pages hold. -/
theorem cloneOfNull_sameClone (hw : hhdm.toNat + 2 ^ 40 ≤ 2 ^ 64)
    (hold : ∀ t ∈ pageTables hhdm cx.machine.mem old, t ∉ F) (hz : SameButFree F cx cz)
    (hfresh : FreshBetween A hhdm Fᶜ cx.machine (cloneOfNull A hhdm old cx).2.2.machine)
    (hcx : ∀ i, (cx.machine.mem (nextPage A hhdm cx.machine) i).present = false)
    (hcz : ∀ i, (cz.machine.mem (nextPage A hhdm cx.machine) i).present = false) :
    SameClone hhdm (nextPage A hhdm cx.machine) (cloneOfNull A hhdm old cx).2.2.machine
      (cloneOfNull A hhdm old cz).2.2.machine := by
  obtain ⟨h0, hframe, hnew, hpages⟩ := freshPages_of_cloneOfNull hfresh
  have hnextz : nextPage A hhdm cz.machine = nextPage A hhdm cx.machine := by
    rw [nextPage, hz.pmm, nextPage]
  have hptr : nextPage A hhdm cx.machine ≠ 0#64 := add_hhdm_ne_zero hw h0 hframe
  have hcode := @cloneOfNull_eq σ A hhdm old cx hptr
  have hcodez := @cloneOfNull_eq σ A hhdm old cz (hnextz ▸ hptr)
  rw [hnextz] at hcodez
  rw [hcode] at hpages ⊢
  rw [hcodez]
  dsimp only at hpages ⊢
  set P := nextPage A hhdm cx.machine with hP
  have hroot : ∀ i, entrySlot hhdm 0 ((cx.machine.afterAlloc A).mem P i) = .empty := fun i =>
    entrySlot_of_not_present (hcx i) _
  have hstart : CopyState A hhdm old P (cx.machine.afterAlloc A)
      (clonePml4 A hhdm P old { cx with machine := cx.machine.afterAlloc A }).machine.allocs
      (cx.machine.afterAlloc A) :=
    copyState_start_of_empty hroot (fun hmem => hnew (hold P hmem))
      (hpages.anti (Set.insert_subset_insert hold))
  have htwin : CloneTwin hhdm P (pageTables hhdm (cx.machine.afterAlloc A).mem old)
      { cx with machine := cx.machine.afterAlloc A }
      { cz with machine := cz.machine.afterAlloc A } := by
    refine ⟨⟨?_, ?_⟩, hz.indices.symm⟩
    · show (A.pmmAlloc cx.machine.pmm).2 = (A.pmmAlloc cz.machine.pmm).2
      rw [hz.pmm]
    · rintro t (ht | ht) i
      · rw [pageTables, tables_eq_root_of_empty hroot] at ht
        obtain rfl : t = P := ht
        exact Or.inr ⟨hcx i, hcz i⟩
      · exact Or.inl (congrFun (hz.mem t (hold t ht)).symm i)
  exact (clonePml4_copy hw htwin hstart le_rfl).1.twin.machine.sameClone

/-! ## A page that maps itself -/

/-- **Every entry of the root points back to it.** -/
def SelfMap (hhdm : BitVec 64) (root : TablePtr) (s : Machine σ) : Prop :=
  ∀ i, (s.mem root i).present = true ∧ (s.mem root i).tableAddress + hhdm = root

/-- Nothing can be mapped in such a table. -/
theorem pagingMapPage_of_selfMap (h : SelfMap hhdm root s) (phys virt : BitVec 64)
    (size : PageSize) (flags : BitVec 64) :
    pagingMapPageWithoutTlbInvalidation A hhdm root phys virt size flags s = (.error, s) := by
  have hdown : ∀ steps, nextTables A hhdm steps root s = (some root, s) := by
    intro steps
    induction steps with
    | nil => rfl
    | cons step steps ih =>
      rw [nextTables, nextTable_of_present step.1 (h step.2).1, (h step.2).2]
      exact ih
  rw [pagingMapPage_eq_nextTables, hdown]
  simp only [mapLeaf, (h _).1, if_true]

/-- So a clone into it changes nothing. -/
theorem cloneOfNull_of_selfMap (hptr : nextPage A hhdm cs.machine ≠ 0#64)
    (h : SelfMap hhdm (nextPage A hhdm cs.machine) cs.machine) :
    (cloneOfNull A hhdm old cs).2.2.machine = cs.machine.afterAlloc A := by
  have hR : MapRel A hhdm (nextPage A hhdm cs.machine)
      fun s s' => SelfMap hhdm (nextPage A hhdm cs.machine) s → s' = s := by
    refine ⟨fun _ _ => rfl, fun s s' s'' hs hs' hself => ?_, fun phys virt size flags s hself => ?_⟩
    · have hsame := hs hself
      rw [hs' (hsame ▸ hself), hsame]
    · rw [pagingMapPage_of_selfMap hself]
  have hkeep := hR.pml4 { cs with machine := cs.machine.afterAlloc A }
    (clonePml4 A hhdm (nextPage A hhdm cs.machine) old
      { cs with machine := cs.machine.afterAlloc A }) rfl h
  rw [cloneOfNull_eq hptr]
  exact hkeep

/-- The state with every entry of a page set to `e`. -/
def CloneState.fillPage (t : TablePtr) (e : PageTableEntry) (cs : CloneState σ) : CloneState σ :=
  { cs with machine := { cs.machine with mem := Function.update cs.machine.mem t fun _ => e } }

theorem mem_fillPage (t : TablePtr) (e : PageTableEntry) (cs : CloneState σ) (i : TableIndex) :
    (cs.fillPage t e).machine.mem t i = e := by
  show Function.update cs.machine.mem t (fun _ => e) t i = e
  rw [Function.update_self]

theorem sameButFree_fillPage {t : TablePtr} (ht : t ∈ F) (e : PageTableEntry)
    (cs : CloneState σ) : SameButFree F cs (cs.fillPage t e) :=
  ⟨fun _ hu => Function.update_of_ne (by rintro rfl; exact hu ht) _ _, rfl, rfl⟩

/-- A page filled with pointers to itself. -/
theorem selfMap_fillPage (hframe : IsFrame .kb4 (A.pmmAlloc cs.machine.pmm).1)
    {flags : BitVec 64} (hp : flags.getLsbD 0 = true) :
    SelfMap hhdm (nextPage A hhdm cs.machine) (cs.fillPage (nextPage A hhdm cs.machine)
      (pagingCreateEntry (A.pmmAlloc cs.machine.pmm).1 flags .pml4 .pointer)).machine := by
  intro i
  rw [mem_fillPage, present_pagingCreateEntry,
    tableAddress_pagingCreateEntry hframe flags (show PageTableLevel.pml4 ≠ .pt by decide)]
  exact ⟨hp, rfl⟩

/-- **When a clone depends on stale memory.** It does not, if the page that
`pmm_alloc` hands out for the new PML4 holds no present entry; and whatever the
old page table is, there are two contents of that page for which it does. -/
theorem pagingClonePageTable_stale (hw : hhdm.toNat + 2 ^ 40 ≤ 2 ^ 64)
    (hold : ∀ t ∈ pageTables hhdm cs.machine.mem old, t ∉ F)
    (h0 : (A.pmmAlloc cs.machine.pmm).1 ≠ 0#64)
    (hframe : IsFrame .kb4 (A.pmmAlloc cs.machine.pmm).1)
    (hfree : nextPage A hhdm cs.machine ∈ F) :
    (∀ cx cz, SameButFree F cs cx → SameButFree F cs cz →
      FreshBetween A hhdm Fᶜ cx.machine (cloneOfNull A hhdm old cx).2.2.machine →
      (∀ i, (cx.machine.mem (nextPage A hhdm cs.machine) i).present = false) →
      (∀ i, (cz.machine.mem (nextPage A hhdm cs.machine) i).present = false) →
      SameClone hhdm (nextPage A hhdm cs.machine) (cloneOfNull A hhdm old cx).2.2.machine
        (cloneOfNull A hhdm old cz).2.2.machine) ∧
    ∃ cx cz, SameButFree F cs cx ∧ SameButFree F cs cz ∧
      ¬ SameClone hhdm (nextPage A hhdm cs.machine) (cloneOfNull A hhdm old cx).2.2.machine
        (cloneOfNull A hhdm old cz).2.2.machine := by
  have hptr : nextPage A hhdm cs.machine ≠ 0#64 := add_hhdm_ne_zero hw h0 hframe
  constructor
  · intro cx cz hx hz hfresh hcx hcz
    have hnext : nextPage A hhdm cx.machine = nextPage A hhdm cs.machine := by
      rw [nextPage, hx.pmm, nextPage]
    have htables : pageTables hhdm cx.machine.mem old = pageTables hhdm cs.machine.mem old := by
      have hslots : slotAt (entrySlot hhdm) cx.machine.mem old
          = slotAt (entrySlot hhdm) cs.machine.mem old :=
        slotAt_congr_of_eqOn fun t ht => hx.mem t (hold t ht)
      rw [pageTables, tables, hslots, pageTables, tables]
    rw [← hnext] at hcx hcz ⊢
    refine cloneOfNull_sameClone hw (fun t ht => hold t (htables ▸ ht)) ⟨fun t ht => ?_, ?_, ?_⟩
      hfresh hcx hcz
    · rw [hz.mem t ht, hx.mem t ht]
    · rw [hz.pmm, hx.pmm]
    · rw [hz.indices, hx.indices]
  · -- the page filled with pointers to itself, once writable and once not
    set P := nextPage A hhdm cs.machine with hP
    set e := pagingCreateEntry (A.pmmAlloc cs.machine.pmm).1 1#64 .pml4 .pointer with he
    set e' := pagingCreateEntry (A.pmmAlloc cs.machine.pmm).1 3#64 .pml4 .pointer with he'
    refine ⟨cs.fillPage P e, cs.fillPage P e', sameButFree_fillPage hfree e cs,
      sameButFree_fillPage hfree e' cs, fun hsame => ?_⟩
    have hself : SelfMap hhdm P (cs.fillPage P e).machine := selfMap_fillPage hframe rfl
    have hself' : SelfMap hhdm P (cs.fillPage P e').machine := selfMap_fillPage hframe rfl
    have hresult : (cloneOfNull A hhdm old (cs.fillPage P e)).2.2.machine
        = (cs.fillPage P e).machine.afterAlloc A := cloneOfNull_of_selfMap hptr hself
    have hresult' : (cloneOfNull A hhdm old (cs.fillPage P e')).2.2.machine
        = (cs.fillPage P e').machine.afterAlloc A := cloneOfNull_of_selfMap hptr hself'
    rw [hresult, hresult'] at hsame
    have hentry : some e = some e' := by
      have hread := hsame.1 [] 0
      have hp := (hself 0).1
      have hp' := (hself' 0).1
      rw [mem_fillPage] at hp hp'
      unfold presentEntry at hread
      simpa only [slotAt_nil, Machine.mem_afterAlloc, mem_fillPage, hp, hp', if_true] using hread
    have hbit := congrArg (fun x => BitVec.getLsbD x 1) (Option.some.inj hentry)
    simp only [he, he', getLsbD_pagingCreateEntry _ _ _ _ (show 1 < 12 by decide)] at hbit
    exact absurd hbit (by decide)

/-- The empty machine, before a clone of the all-zero page table at
`0x8000`. -/
def zeroCloneState : CloneState ℕ where
  machine := zeroMachine
  pml4Idx := 0
  pdprIdx := 0
  pdIdx := 0
  ptIdx := 0

/-- Two contents of one free page for which the clones differ. -/
theorem pagingClonePageTable_stale_zero :
    ∃ cx cz, SameButFree {higherHalf + 0x1000#64} zeroCloneState cx ∧
      SameButFree {higherHalf + 0x1000#64} zeroCloneState cz ∧
      ¬ SameClone higherHalf (nextPage bumpAllocator higherHalf zeroCloneState.machine)
        (cloneOfNull bumpAllocator higherHalf (higherHalf + 0x8000#64) cx).2.2.machine
        (cloneOfNull bumpAllocator higherHalf (higherHalf + 0x8000#64) cz).2.2.machine := by
  have hold : ∀ t ∈ pageTables higherHalf zeroCloneState.machine.mem (higherHalf + 0x8000#64),
      t ∉ ({higherHalf + 0x1000#64} : Set TablePtr) := by
    rw [pageTables, tables_eq_root_of_empty fun _ => entrySlot_of_not_present present_zero _]
    rintro _ rfl
    simp only [Set.mem_singleton_iff]
    decide
  have hfree : nextPage bumpAllocator higherHalf zeroCloneState.machine
      = higherHalf + 0x1000#64 := by decide
  exact (pagingClonePageTable_stale (by decide) hold (by decide) (by decide) hfree).2

/-- **A clone that depends on stale memory**: the page for the new PML4 holds
pointers to itself, once as tables and once as large pages. Nothing is mapped in
the old page table, but in the clone the first page is, and to addresses that
depend on what the page held. -/
theorem pagingClonePageTable_depends_on_stale :
    SameButFree {higherHalf + 0x1000#64}
        (zeroCloneState.fillPage (higherHalf + 0x1000#64) 0x1003#64)
        (zeroCloneState.fillPage (higherHalf + 0x1000#64) 0x1083#64) ∧
      ¬ SameClone higherHalf (higherHalf + 0x1000#64)
        (cloneOfNull bumpAllocator higherHalf (higherHalf + 0x8000#64)
          (zeroCloneState.fillPage (higherHalf + 0x1000#64) 0x1003#64)).2.2.machine
        (cloneOfNull bumpAllocator higherHalf (higherHalf + 0x8000#64)
          (zeroCloneState.fillPage (higherHalf + 0x1000#64) 0x1083#64)).2.2.machine := by
  constructor
  · refine ⟨fun t ht => ?_, rfl, rfl⟩
    have hne : t ≠ higherHalf + 0x1000#64 := ht
    exact (Function.update_of_ne hne _ _).trans (Function.update_of_ne hne _ _).symm
  · -- in neither case does the clone change anything
    have hclone : ∀ e : PageTableEntry, e.present = true →
        e.tableAddress + higherHalf = higherHalf + 0x1000#64 →
        (cloneOfNull bumpAllocator higherHalf (higherHalf + 0x8000#64)
          (zeroCloneState.fillPage (higherHalf + 0x1000#64) e)).2.2.machine
          = (zeroCloneState.fillPage (higherHalf + 0x1000#64) e).machine.afterAlloc
            bumpAllocator := by
      intro e hp ha
      have hnext : nextPage bumpAllocator higherHalf
          (zeroCloneState.fillPage (higherHalf + 0x1000#64) e).machine
          = higherHalf + 0x1000#64 := by
        show nextPage bumpAllocator higherHalf zeroCloneState.machine = higherHalf + 0x1000#64
        decide
      refine cloneOfNull_of_selfMap ?_ ?_
      · rw [hnext]
        decide
      · rw [hnext]
        intro i
        rw [mem_fillPage]
        exact ⟨hp, ha⟩
    rw [hclone _ (by decide) (by decide), hclone _ (by decide) (by decide)]
    exact fun h => absurd (h.2 0#64) (by decide)
