import Joes.PagingRefinement

/-!
# What a mapping reads back

A page is mapped by one walk and resolved by another. The walk of
`paging_map_page` chooses the level of the leaf from the page size it is
called with; that of `paging_resolve_virtual_address` stops where the
`page_size` bit of an entry says so.

Here a mapping is followed along the one path it is about, in tables that need
not form a tree (`pagingMapPage_walk`): it succeeds, and the slot of the page
holds the entry that was built. What the entry reads as is then a matter of
its bits. A large page without `PAGING_FLAG_PAGE_SIZE` reads as a table
(`pagingMapPage_large_iff`).
-/

open PageTableEntry RadixHeap

variable {σ : Type} {A : PageAllocator σ} {hhdm : BitVec 64} {pml4 : TablePtr}
variable {s s' : Machine σ} {used : Set TablePtr} {limit : ℕ}

/-! ## Along one path -/

/-- A table linked in at a free entry is found there, and it is the only new
one. -/
theorem pageSlot_linkNext {p : List TableIndex} {t : TablePtr} {i : TableIndex}
    {level : PageTableLevel} (hframe : IsFrame .kb4 (A.pmmAlloc s.pmm).1)
    (hnew : (A.pmmAlloc s.pmm).1 + hhdm ∉ pageTables hhdm s.mem pml4)
    (ht : pageSlot hhdm s.mem pml4 p = .table t) (hd : p.length ≤ 2) (hl : level ≠ .pt)
    (hp : (s.mem t i).present = false) :
    pageSlot hhdm (linkNext A hhdm level t i s).mem pml4 (p ++ [i])
        = .table ((A.pmmAlloc s.pmm).1 + hhdm)
      ∧ ∀ u ∈ pageTables hhdm (linkNext A hhdm level t i s).mem pml4,
          u = (A.pmmAlloc s.pmm).1 + hhdm ∨ u ∈ pageTables hhdm s.mem pml4 := by
  have hne : (A.pmmAlloc s.pmm).1 + hhdm ≠ t := fun heq => hnew (heq ▸ mem_tables ht)
  have hsame : ∀ q u, pageSlot hhdm s.mem pml4 q = .table u → ∀ j, (u, j) ≠ (t, i) →
      entrySlot hhdm q.length ((linkNext A hhdm level t i s).mem u j)
        = entrySlot hhdm q.length (s.mem u j) := by
    intro q u hu j huj
    rw [mem_linkNext level (fun heq => hnew (heq ▸ mem_tables hu)) huj]
  have hstored : (linkNext A hhdm level t i s).mem t i
      = pagingCreateEntry ((A.pmmAlloc s.pmm).1 + hhdm - hhdm)
        (pagingFlagPresent ||| pagingFlagWritable) level .pointer :=
    Machine.mem_storeEntry_self t i _ _
  constructor
  · have hkept := slotAt_of_write_free ht (fun d => entrySlot_of_not_present hp d) hsame
    rw [pageSlot, slotAt_snoc_of_table hkept, hstored, entrySlot_link hframe hl hd]
  · rintro u ⟨q, hq⟩
    refine (table_or_of_write hsame (fun d c hc => ?_) (fun d j => ?_) hq).imp_right mem_tables
    · rw [hstored] at hc
      obtain ⟨hd', -⟩ := of_entrySlot_eq_table hc
      rw [entrySlot_link hframe hl hd'] at hc
      exact (Slot.table.inj hc).symm
    · rw [mem_linkNext_self level hne]
      exact entrySlot_of_not_present present_zero d

/-- Below an all-zero table there is nothing. -/
theorem pageSlot_below_zero {p q : List TableIndex} {t : TablePtr}
    (ht : pageSlot hhdm s.mem pml4 p = .table t) (hzero : ∀ j, s.mem t j = 0#64) (hq : q ≠ []) :
    pageSlot hhdm s.mem pml4 (p ++ q) = .empty := by
  obtain ⟨j, q, rfl⟩ := List.exists_cons_of_ne_nil hq
  have hj : pageSlot hhdm s.mem pml4 (p ++ [j]) = .empty := by
    rw [pageSlot, slotAt_snoc_of_table ht]
    exact entrySlot_of_zero hzero _ j
  by_cases hnil : q = []
  · rw [hnil]
    exact hj
  · rw [← List.singleton_append, ← List.append_assoc]
    exact slotAt_append_of_not_table hnil fun u hu => by cases hj.symm.trans hu

/-- **A table linked in by a descent**: it comes from the pages not in use and is
empty, and apart from it there is no new table and no other page in use changes. -/
structure LinkedTable (A : PageAllocator σ) (hhdm : BitVec 64) (pml4 : TablePtr) (limit : ℕ)
    (used : Set TablePtr) (p : List TableIndex) (s : Machine σ) (c : TablePtr) (s₁ : Machine σ) :
    Prop where
  slot : pageSlot hhdm s₁.mem pml4 p = .table c
  below : ∀ r ≠ [], pageSlot hhdm s₁.mem pml4 (p ++ r) = .empty
  notMem : c ∉ used
  fresh : FreshPages A hhdm (limit - s₁.allocs) (insert c used) s₁.pmm
  old : ∀ u ∈ pageTables hhdm s₁.mem pml4, u = c ∨ u ∈ pageTables hhdm s.mem pml4
  frame : ∀ u ∈ used, u ∉ pageTables hhdm s.mem pml4 → s₁.mem u = s.mem u

/-- **A step of the descent at a free entry** links a table in. -/
theorem nextTable_walk (hw : hhdm.toNat + 2 ^ 40 ≤ 2 ^ 64) {level : PageTableLevel}
    {p : List TableIndex} {t : TablePtr} {i : TableIndex}
    (htables : pageTables hhdm s.mem pml4 ⊆ used)
    (hfresh : FreshPages A hhdm (limit - s.allocs) used s.pmm)
    (hlimit : (nextTable A hhdm level t i s).2.allocs ≤ limit)
    (ht : pageSlot hhdm s.mem pml4 p = .table t) (hd : p.length ≤ 2) (hl : level ≠ .pt)
    (hp : (s.mem t i).present = false) :
    ∃ c s₁, nextTable A hhdm level t i s = (some c, s₁) ∧
      LinkedTable A hhdm pml4 limit used (p ++ [i]) s c s₁ := by
  rw [allocs_nextTable_of_free level hp] at hlimit
  rw [show limit - s.allocs = limit - (s.allocs + 1) + 1 by omega] at hfresh
  obtain ⟨h0, hframe, hnew, hrest⟩ := hfresh
  have hnot : (A.pmmAlloc s.pmm).1 + hhdm ∉ pageTables hhdm s.mem pml4 :=
    fun hmem => hnew (htables hmem)
  have hne : (A.pmmAlloc s.pmm).1 + hhdm ≠ t := fun heq => hnot (heq ▸ mem_tables ht)
  obtain ⟨hslot, hold⟩ := pageSlot_linkNext (A := A) hframe hnot ht hd hl hp
  refine ⟨_, _, nextTable_of_free (A := A) level hp (add_hhdm_ne_zero hw h0 hframe), hslot,
    fun r hr => pageSlot_below_zero hslot (fun j => mem_linkNext_self level hne) hr, hnew,
    by rwa [allocs_linkNext], hold, fun u hu hmem => ?_⟩
  funext j
  refine mem_linkNext level (fun heq => hnew (heq ▸ hu)) (fun huj => ?_)
  exact hmem ((Prod.mk.inj huj).1 ▸ mem_tables ht)

/-- **The descent of a mapping along its path**, to a slot under no leaf: it
ends in the table of the slot, which is still free. The tables are the old ones
and pages that were not in use, and no other page in use has changed. -/
theorem nextTables_walk (hw : hhdm.toNat + 2 ^ 40 ≤ 2 ^ 64)
    {steps : List (PageTableLevel × TableIndex)} {p : List TableIndex} {t : TablePtr}
    (htables : pageTables hhdm s.mem pml4 ⊆ used)
    (hfresh : FreshPages A hhdm (limit - s.allocs) used s.pmm)
    (hlimit : (nextTables A hhdm steps t s).2.allocs ≤ limit)
    (ht : pageSlot hhdm s.mem pml4 p = .table t) (hd : p.length + steps.length ≤ 3)
    (hl : ∀ step ∈ steps, step.1 ≠ .pt)
    (hleaf : ∀ q, q <+: steps.map Prod.snd → (pageSlot hhdm s.mem pml4 (p ++ q)).leaf? = none)
    {k : TableIndex} (hfree : pageSlot hhdm s.mem pml4 (p ++ steps.map Prod.snd ++ [k]) = .empty) :
    ∃ c s', nextTables A hhdm steps t s = (some c, s')
      ∧ pageSlot hhdm s'.mem pml4 (p ++ steps.map Prod.snd) = .table c
      ∧ (s'.mem c k).present = false
      ∧ (∀ u ∈ used, u ∈ pageTables hhdm s'.mem pml4 → u ∈ pageTables hhdm s.mem pml4)
      ∧ ∀ u ∈ used, u ∉ pageTables hhdm s.mem pml4 → s'.mem u = s.mem u := by
  induction steps generalizing p t s used with
  | nil =>
    rw [List.map_nil, List.append_nil] at hfree
    refine ⟨t, s, rfl, by rwa [List.map_nil, List.append_nil], ?_, fun _ _ h => h,
      fun _ _ _ => rfl⟩
    exact not_present_of_pageSlot_empty (by simpa using hd) ht hfree
  | cons step steps ih =>
    obtain ⟨level, i⟩ := step
    rw [List.length_cons] at hd
    have hl₁ : level ≠ .pt := hl (level, i) List.mem_cons_self
    have hl' : ∀ step ∈ steps, step.1 ≠ .pt :=
      fun step hmem => hl step (List.mem_cons_of_mem _ hmem)
    have hfirst := allocs_nextTables_cons hlimit
    have hd' : (p ++ [i]).length + steps.length ≤ 3 := by
      rw [List.length_append, List.length_singleton]
      omega
    have happ : p ++ ((level, i) :: steps).map Prod.snd = p ++ [i] ++ steps.map Prod.snd := by
      rw [List.map_cons, List.append_assoc, List.singleton_append]
    rw [happ] at hfree ⊢
    rcases pageSlot_snoc_cases (by omega) ht i with ⟨hemp, hp⟩ | ⟨-, hc, -⟩ | ⟨-, he, -⟩
    · -- the entry is free: a page is linked in, and below it nothing is found
      obtain ⟨u₁, s₁, hnext, hlinked⟩ :=
        nextTable_walk hw htables hfresh hfirst ht (by omega) hl₁ hp
      have hlimit' : (nextTables A hhdm steps u₁ s₁).2.allocs ≤ limit := by
        rwa [nextTables, hnext] at hlimit
      have htables' : pageTables hhdm s₁.mem pml4 ⊆ insert u₁ used :=
        fun u hu => (hlinked.old u hu).imp_right fun h => htables h
      obtain ⟨c, s', hrun, hc, hpc, htab, hframe⟩ := ih htables' hlinked.fresh hlimit'
        hlinked.slot hd' hl'
        (fun q _ => by
          by_cases hq : q = []
          · rw [hq, List.append_nil, hlinked.slot]
            rfl
          · rw [hlinked.below q hq]
            rfl)
        (by rw [List.append_assoc]; exact hlinked.below _ (by simp))
      refine ⟨c, s', by rw [nextTables, hnext]; exact hrun, hc, hpc, fun u hu hmem => ?_,
        fun u hu hmem => ?_⟩
      · rcases hlinked.old u (htab u (Set.mem_insert_of_mem _ hu) hmem) with rfl | h
        · exact absurd hu hlinked.notMem
        · exact h
      · have hmem₁ : u ∉ pageTables hhdm s₁.mem pml4 := by
          intro h
          rcases hlinked.old u h with rfl | h
          · exact hlinked.notMem hu
          · exact hmem h
        rw [hframe u (Set.mem_insert_of_mem _ hu) hmem₁, hlinked.frame u hu hmem]
    · have hnext := nextTable_of_table (A := A) level ht hc
      have hlimit' : (nextTables A hhdm steps ((s.mem t i).tableAddress + hhdm) s).2.allocs
          ≤ limit := by
        rwa [nextTables, hnext] at hlimit
      obtain ⟨c, s', hrun, hrest⟩ := ih htables hfresh hlimit' hc hd' hl'
        (fun q hq => by
          have := hleaf (i :: q) (List.cons_prefix_cons.mpr ⟨rfl, hq⟩)
          rwa [← List.singleton_append, ← List.append_assoc] at this)
        hfree
      exact ⟨c, s', by rw [nextTables, hnext]; exact hrun, hrest⟩
    · have hstep : (pageSlot hhdm s.mem pml4 (p ++ [i])).leaf? = none :=
        hleaf [i] ⟨steps.map Prod.snd, rfl⟩
      rw [he] at hstep
      cases hstep

/-- **A mapping at a free slot under no leaf** succeeds, whatever its flags: the
slot holds the entry that was built, as the walk reads it there, and a page in
use that is no table is unchanged. -/
theorem pagingMapPage_walk (hw : hhdm.toNat + 2 ^ 40 ≤ 2 ^ 64) {size : PageSize}
    {virt : BitVec 64} (phys flags : BitVec 64)
    (htables : pageTables hhdm s.mem pml4 ⊆ used)
    (hfresh : FreshBetween A hhdm used s (pagingMapPage A hhdm pml4 phys virt size flags s).2)
    (habove : ∀ q, q <+: tablePath size virt → (pageSlot hhdm s.mem pml4 q).leaf? = none)
    (hfree : pageSlot hhdm s.mem pml4 (pagePath size virt) = .empty) :
    (pagingMapPage A hhdm pml4 phys virt size flags s).1 = .ok
      ∧ pageSlot hhdm (pagingMapPage A hhdm pml4 phys virt size flags s).2.mem pml4
          (pagePath size virt)
        = entrySlot hhdm (tablePath size virt).length
            (pagingCreateEntry phys flags size.level .page)
      ∧ ∀ u ∈ used, u ∉ pageTables hhdm s.mem pml4 →
          (pagingMapPage A hhdm pml4 phys virt size flags s).2.mem u = s.mem u := by
  have hroot : pageSlot hhdm s.mem pml4 [] = .table pml4 := rfl
  have hlen : (pageSteps size virt).length ≤ 3 := by cases size <;> simp [pageSteps]
  rw [pagePath_eq_snoc] at hfree
  have hallocs := @allocs_pagingMapPage_eq σ A hhdm pml4 phys virt size flags s
  obtain ⟨t, s₁, hdown, ht, hp, htab, hframe⟩ := nextTables_walk hw htables hfresh.pages
    (le_of_eq hallocs.symm) hroot (by rw [List.length_nil]; omega)
    (by cases size <;> simp [pageSteps]) habove hfree
  replace ht : pageSlot hhdm s₁.mem pml4 (tablePath size virt) = .table t := ht
  have hrun : pagingMapPage A hhdm pml4 phys virt size flags s = (.ok, s₁.storeEntry t
      (leafIdx size virt) (pagingCreateEntry phys flags size.level .page)) := by
    rw [pagingMapPage, pagingMapPage_eq_nextTables, hdown]
    simp only [mapLeaf, hp, Bool.false_eq_true, if_false]
  rw [hrun]
  refine ⟨rfl, ?_, fun u hu hmem => ?_⟩
  · have hkept : pageSlot hhdm (s₁.storeEntry t (leafIdx size virt)
        (pagingCreateEntry phys flags size.level .page)).mem pml4 (tablePath size virt)
        = .table t :=
      slotAt_of_write_free ht (fun d => entrySlot_of_not_present hp d) fun q u _ j huj => by
        rw [Machine.mem_storeEntry_of_ne huj]
    rw [pagePath_eq_snoc, pageSlot, slotAt_snoc_of_table hkept, Machine.mem_storeEntry_self]
  · have hne : u ≠ t := fun heq => hmem (htab u hu (heq ▸ mem_tables ht))
    rw [Machine.mem_storeEntry_of_ne_table hne, hframe u hu hmem]

/-! ## Large pages -/

/-- The addresses from the start of a page to its end have its path. -/
theorem pagePath_of_mem {size : PageSize} {virt v : BitVec 64}
    (halign : virt.toNat % 2 ^ size.shift = 0) (hle : virt.toNat ≤ v.toNat)
    (hlt : v.toNat < virt.toNat + 2 ^ size.shift) : pagePath size v = pagePath size virt := by
  have hpos : 0 < 2 ^ size.shift := Nat.two_pow_pos _
  have hdiv : v.toNat / 2 ^ size.shift = virt.toNat / 2 ^ size.shift := by
    obtain ⟨n, hn⟩ := Nat.dvd_of_mod_eq_zero halign
    have hsplit : v.toNat = 2 ^ size.shift * n + (v.toNat - virt.toNat) := by omega
    rw [hsplit, hn, Nat.mul_add_div hpos, Nat.mul_div_cancel_left _ hpos,
      Nat.div_eq_of_lt (by omega), Nat.add_zero]
  refine (pagePath_eq_iff_bits size v virt).mpr fun i hi _ => ?_
  have hbit := congrArg (fun n => n.testBit (i - size.shift)) hdiv
  show v.toNat.testBit i = virt.toNat.testBit i
  simpa only [Nat.testBit_div_two_pow, Nat.sub_add_cancel hi] using hbit

/-- **A mapped page reads back**: the mapping succeeds, and every address from
the start of the page to its end resolves to the frame. -/
structure ReadsBack (A : PageAllocator σ) (hhdm : BitVec 64) (pml4 : TablePtr)
    (phys virt : BitVec 64) (size : PageSize) (flags : BitVec 64) (s : Machine σ) : Prop where
  ok : (pagingMapPage A hhdm pml4 phys virt size flags s).1 = .ok
  resolve : ∀ v : BitVec 64, virt.toNat ≤ v.toNat → v.toNat < virt.toNat + 2 ^ size.shift →
    pagingResolveVirtualAddress hhdm pml4 v
      (pagingMapPage A hhdm pml4 phys virt size flags s).2 = phys

/-- A page mapped with the flags of a leaf reads back. -/
theorem readsBack_of_leafFlags (hw : hhdm.toNat + 2 ^ 40 ≤ 2 ^ 64) {size : PageSize}
    {virt phys flags : BitVec 64} (halign : virt.toNat % 2 ^ size.shift = 0)
    (hphys : IsFrame size phys) (hf : LeafFlags size flags)
    (hfresh : FreshBetween A hhdm (pageTables hhdm s.mem pml4) s
      (pagingMapPage A hhdm pml4 phys virt size flags s).2)
    (habove : ∀ q, q <+: tablePath size virt → (pageSlot hhdm s.mem pml4 q).leaf? = none)
    (hfree : pageSlot hhdm s.mem pml4 (pagePath size virt) = .empty) :
    ReadsBack A hhdm pml4 phys virt size flags s := by
  obtain ⟨hok, hslot, -⟩ := pagingMapPage_walk hw phys flags subset_rfl hfresh habove hfree
  refine ⟨hok, fun v hle hlt => ?_⟩
  rw [← pagePath_of_mem halign hle hlt, entrySlot_leaf hf phys virt] at hslot
  rw [pagingResolveVirtualAddress_of_leaf hslot, pageBase_pagingCreateEntry hphys]

/-- **A large page without `PAGING_FLAG_PAGE_SIZE` reads as a table**, at the
address its entry has in the place of a pointer. -/
theorem entrySlot_large {size : PageSize} (hsize : size ≠ .kb4) {flags : BitVec 64}
    (hp : flags.getLsbD 0 = true) (hflag : flags.getLsbD 7 = false) (phys virt : BitVec 64) :
    entrySlot hhdm (tablePath size virt).length (pagingCreateEntry phys flags size.level .page)
      = .table ((pagingCreateEntry phys flags size.level .page).tableAddress + hhdm) := by
  have hpr : (pagingCreateEntry phys flags size.level .page).present = true := by
    rw [present_pagingCreateEntry, hp]
  have hps : (pagingCreateEntry phys flags size.level .page).pageSize = false := by
    rw [pageSize_pagingCreateEntry, hflag]
  cases size with
  | kb4 => exact absurd rfl hsize
  | mb2 => simp [tablePath, pageSteps, entrySlot, hpr, hps]
  | gb1 => simp [tablePath, pageSteps, entrySlot, hpr, hps]

/-- A memory manager that hands out one page after the other. -/
def runningAllocator : PageAllocator (BitVec 64) where
  pmmAlloc page := (page, page + 0x1000#64)
  pmmFree _ page := page

/-- An empty PML4 at the page `root`, the pages behind it free, and a page
`frame` of which every word is `word`. -/
def filledMachine (hhdm root frame : BitVec 64) (word : PageTableEntry) :
    Machine (BitVec 64) where
  mem t _ := if t = frame + hhdm then word else 0#64
  pmm := root + 0x1000#64
  trace := []

/-- There is room for a PML4 and its tables off any page. -/
theorem exists_root (hhdm frame : BitVec 64) :
    ∃ root : BitVec 64, root ≠ frame ∧
      FreshPages runningAllocator hhdm 3 {root + hhdm, frame + hhdm} (root + 0x1000#64) := by
  have hfresh : ∀ root : BitVec 64, root = 0x1000#64 ∨ root = 0x8000000000#64 →
      frame ∉ [root, root + 0x1000#64, root + 0x1000#64 + 0x1000#64,
        root + 0x1000#64 + 0x1000#64 + 0x1000#64] →
      root ≠ frame ∧
        FreshPages runningAllocator hhdm 3 {root + hhdm, frame + hhdm} (root + 0x1000#64) := by
    rintro root hroot hframe
    simp only [List.mem_cons, List.not_mem_nil, or_false, not_or] at hframe
    obtain ⟨h0, h1, h2, h3⟩ := hframe
    refine ⟨Ne.symm h0, ?_⟩
    simp only [FreshPages, runningAllocator, Set.mem_insert_iff, Set.mem_singleton_iff,
      BitVec.add_left_inj, Ne.symm h1, Ne.symm h2, Ne.symm h3, or_false]
    rcases hroot with rfl | rfl <;> decide
  by_cases hframe : frame.toNat < 2 ^ 39
  · refine ⟨_, hfresh 0x8000000000#64 (Or.inr rfl) fun hmem => ?_⟩
    simp only [List.mem_cons, List.not_mem_nil, or_false] at hmem
    rcases hmem with rfl | rfl | rfl | rfl <;> exact absurd hframe (by decide)
  · refine ⟨_, hfresh 0x1000#64 (Or.inl rfl) fun hmem => ?_⟩
    simp only [List.mem_cons, List.not_mem_nil, or_false] at hmem
    rcases hmem with rfl | rfl | rfl | rfl <;> exact absurd hframe (by decide)

/-- Where the slot of a large page reads as a table filled with one leaf, an
address of the page resolves to what that leaf says. -/
theorem resolve_of_filled {size : PageSize} (hsize : size ≠ .kb4) {virt : BitVec 64} {t : TablePtr}
    (ht : pageSlot hhdm s.mem pml4 (pagePath size virt) = .table t) {word : PageTableEntry}
    (hword : ∀ i, s.mem t i = word) (hpr : word.present = true) (hps : word.pageSize = true) :
    pagingResolveVirtualAddress hhdm pml4 virt s = word.pageBase .mb2
      ∨ pagingResolveVirtualAddress hhdm pml4 virt s = word.pageBase .kb4 := by
  have hleaf : ∀ i, pageSlot hhdm s.mem pml4 (pagePath size virt ++ [i]) = .leaf word := by
    intro i
    rw [pageSlot, slotAt_snoc_of_table ht, hword]
    cases size with
    | kb4 => exact absurd rfl hsize
    | mb2 => simp [pagePath, entrySlot, hpr]
    | gb1 => simp [pagePath, entrySlot, hpr, hps]
  cases size with
  | kb4 => exact absurd rfl hsize
  | mb2 =>
    have hpt : pageSlot hhdm s.mem pml4 (pagePath .kb4 virt) = .leaf word := hleaf (ptIdx virt)
    exact Or.inr (pagingResolveVirtualAddress_of_leaf hpt)
  | gb1 =>
    have hpd : pageSlot hhdm s.mem pml4 (pagePath .mb2 virt) = .leaf word := hleaf (pdIdx virt)
    exact Or.inl (pagingResolveVirtualAddress_of_leaf hpd)

/-- **Without the flag there is a memory in which a large page does not read
back**: the frame holds leaves to somewhere else. -/
theorem exists_not_readsBack (hw : hhdm.toNat + 2 ^ 40 ≤ 2 ^ 64) {size : PageSize}
    (hsize : size ≠ .kb4) {flags : BitVec 64} (hp : flags.getLsbD 0 = true)
    (hflag : flags.getLsbD 7 = false) (phys virt : BitVec 64) :
    ∃ (pml4 : TablePtr) (s : Machine (BitVec 64)),
      (∀ i, s.mem pml4 i = 0#64)
        ∧ FreshBetween runningAllocator hhdm {pml4} s
            (pagingMapPage runningAllocator hhdm pml4 phys virt size flags s).2
        ∧ ¬ ReadsBack runningAllocator hhdm pml4 phys virt size flags s := by
  -- without the flag the frame is taken for a table, so what it holds decides
  set frame := (pagingCreateEntry phys flags size.level .page).tableAddress with hframe
  obtain ⟨root, hne, hfresh⟩ := exists_root hhdm frame
  obtain ⟨word, hpr, hps, hmb2, hkb4⟩ : ∃ word : PageTableEntry, word.present = true
      ∧ word.pageSize = true ∧ word.pageBase .mb2 ≠ phys ∧ word.pageBase .kb4 ≠ phys := by
    by_cases hphys : phys = 0x200000#64
    · exact ⟨0x400081#64, rfl, rfl, by rw [hphys]; decide, by rw [hphys]; decide⟩
    · exact ⟨0x200081#64, rfl, rfl, Ne.symm hphys, Ne.symm hphys⟩
  have hptr : root + hhdm ≠ frame + hhdm := fun h => hne ((BitVec.add_left_inj hhdm).mp h)
  set s := filledMachine hhdm root frame word with hs
  have hzero : ∀ i, s.mem (root + hhdm) i = 0#64 := fun _ => if_neg hptr
  have hempty : ∀ i, entrySlot hhdm 0 (s.mem (root + hhdm) i) = .empty :=
    fun i => entrySlot_of_zero hzero 0 i
  have htables : pageTables hhdm s.mem (root + hhdm) = {root + hhdm} :=
    tables_eq_root_of_empty hempty
  have hbetween : FreshBetween runningAllocator hhdm {root + hhdm, frame + hhdm} s
      (pagingMapPage runningAllocator hhdm (root + hhdm) phys virt size flags s).2 :=
    ⟨hfresh.mono (Nat.sub_le_iff_le_add'.mpr (allocs_pagingMapPage phys virt size flags s).2)⟩
  obtain ⟨-, hslot, hkept⟩ := pagingMapPage_walk hw phys flags
    (by rw [htables]; exact Set.singleton_subset_iff.mpr (Set.mem_insert _ _)) hbetween
    (fun q _ => leaf?_eq_none_of_root hempty q)
    (slotAt_eq_empty_of_root hempty (pagePath_ne_nil size virt))
  rw [entrySlot_large hsize hp hflag, ← hframe] at hslot
  have hfilled := hkept (frame + hhdm) (Set.mem_insert_of_mem _ rfl)
    (by rw [htables]; exact Ne.symm hptr)
  refine ⟨root + hhdm, s, hzero,
    ⟨hbetween.pages.anti (Set.singleton_subset_iff.mpr (Set.mem_insert _ _))⟩, fun hback => ?_⟩
  have hvirt := hback.resolve virt (le_refl _) (Nat.lt_add_of_pos_right (Nat.two_pow_pos _))
  rcases resolve_of_filled hsize hslot (fun i => by rw [hfilled]; exact if_pos rfl) hpr hps with
    h | h
  · exact hmb2 (h.symm.trans hvirt)
  · exact hkb4 (h.symm.trans hvirt)

/-- **Large pages read back exactly with `PAGING_FLAG_PAGE_SIZE`.** Mapped at a
free slot under no leaf, a large page resolves to its frame in every page table
if the flag is set; if it is not, there is one in which it does not. -/
theorem pagingMapPage_large_iff (hw : hhdm.toNat + 2 ^ 40 ≤ 2 ^ 64) {size : PageSize}
    (hsize : size ≠ .kb4) {virt phys flags : BitVec 64}
    (halign : virt.toNat % 2 ^ size.shift = 0) (hphys : IsFrame size phys)
    (hp : flags.getLsbD 0 = true) :
    (∀ (σ : Type) (A : PageAllocator σ) (pml4 : TablePtr) (s : Machine σ),
      FreshBetween A hhdm (pageTables hhdm s.mem pml4) s
        (pagingMapPage A hhdm pml4 phys virt size flags s).2 →
      (∀ q, q <+: tablePath size virt → (pageSlot hhdm s.mem pml4 q).leaf? = none) →
      pageSlot hhdm s.mem pml4 (pagePath size virt) = .empty →
      ReadsBack A hhdm pml4 phys virt size flags s)
    ↔ flags.getLsbD 7 = true := by
  constructor
  · intro h
    by_contra hflag
    obtain ⟨pml4, s, hzero, hfresh, hnot⟩ :=
      exists_not_readsBack hw hsize hp (by simpa using hflag) phys virt
    have hempty : ∀ i, entrySlot hhdm 0 (s.mem pml4 i) = .empty :=
      fun i => entrySlot_of_zero hzero 0 i
    refine hnot (h _ runningAllocator pml4 s ?_ (fun q _ => leaf?_eq_none_of_root hempty q)
      (slotAt_eq_empty_of_root hempty (pagePath_ne_nil size virt)))
    rw [pageTables, tables_eq_root_of_empty hempty]
    exact hfresh
  · intro hflag σ A pml4 s hfresh habove hfree
    exact readsBack_of_leafFlags hw halign hphys ⟨hp, fun _ => hflag⟩ hfresh habove hfree

/-- Two megabytes mapped on the empty machine. -/
theorem pagingMapPage_large_iff_mb2 :
    ReadsBack bumpAllocator higherHalf higherHalf 0x200000#64 0x400000#64 .mb2 0x83#64
      zeroMachine := by
  have hempty : ∀ i, entrySlot higherHalf 0 (zeroMachine.mem higherHalf i) = .empty :=
    fun _ => entrySlot_of_not_present present_zero _
  exact (pagingMapPage_large_iff (by decide) (by decide) (by decide) (by decide) (by decide)).mpr
    (by decide) ℕ bumpAllocator higherHalf zeroMachine freshBetween_zeroMachine
    (fun q _ => leaf?_eq_none_of_root hempty q) (slotAt_eq_empty_of_root hempty (by decide))

/-- **Two megabytes that do not read back**: with `PAGING_FLAG_PRESENT` and
`PAGING_FLAG_WRITABLE`, the second 2 MB mapped to the first resolve to 0. -/
theorem pagingMapPage_large_not_readsBack :
    FreshBetween bumpAllocator higherHalf (pageTables higherHalf zeroMachine.mem higherHalf)
        zeroMachine (pagingMapPage bumpAllocator higherHalf higherHalf 0x200000#64 0x400000#64 .mb2
          0x3#64 zeroMachine).2 ∧
      (∀ q, q <+: tablePath .mb2 0x400000#64 →
        (pageSlot higherHalf zeroMachine.mem higherHalf q).leaf? = none) ∧
      pageSlot higherHalf zeroMachine.mem higherHalf (pagePath .mb2 0x400000#64) = .empty ∧
      ¬ ReadsBack bumpAllocator higherHalf higherHalf 0x200000#64 0x400000#64 .mb2 0x3#64
        zeroMachine := by
  have hempty : ∀ i, entrySlot higherHalf 0 (zeroMachine.mem higherHalf i) = .empty :=
    fun _ => entrySlot_of_not_present present_zero _
  refine ⟨freshBetween_zeroMachine, fun q _ => leaf?_eq_none_of_root hempty q,
    slotAt_eq_empty_of_root hempty (by decide), fun h => ?_⟩
  exact absurd (h.resolve 0x400000#64 (by decide) (by decide)) (by decide)
