import Joes.PagingWalk
import Joes.PageTableLayout

/-!
# What mapping a page does to the tree

`paging_map_page` descends to the table its leaf belongs in, creating the
tables that are missing, and stores the leaf if its slot is free. Read as
slots of the tree: the tables that were missing on the path appear, the leaf
appears, and nothing else changes (`Mapped`). That is proved once, for the
three page sizes together, by writing the descent as a loop over the steps of
the path (`nextTables`); `nextTable_spec` is its step and
`nextTables_spec` its induction.

What is assumed of the state is `MapState`: the heap is a tree, its tables are
among the pages in use, and `pmm_alloc` is about to hand out pages that are
not (`FreshPages`). What is promised of the rest of memory is that a page in
use which is no table of the tree keeps its contents, and does not become a
table. An occupied slot makes the mapping fail and changes nothing at all
(`pagingMapPage_of_occupied`).
-/

open PageTableEntry RadixHeap

variable {σ : Type} {A : PageAllocator σ} {hhdm : BitVec 64} {pml4 : TablePtr}
variable {s s' s₁ s₂ : Machine σ} {used used₁ used₂ : Set TablePtr} {limit : ℕ}

/-- **The next `n` pages handed out are fresh**: non-zero page addresses below
`2 ^ 40`, none of which is seen at a pointer in use, nor handed out twice. -/
def FreshPages (A : PageAllocator σ) (hhdm : BitVec 64) : ℕ → Set TablePtr → σ → Prop
  | 0, _, _ => True
  | n + 1, used, pmm =>
    let page := (A.pmmAlloc pmm).1
    page ≠ 0#64 ∧ IsFrame .kb4 page ∧ page + hhdm ∉ used
      ∧ FreshPages A hhdm n (insert (page + hhdm) used) (A.pmmAlloc pmm).2

theorem FreshPages.mono {m n : ℕ} (hmn : m ≤ n) {pmm : σ} (h : FreshPages A hhdm n used pmm) :
    FreshPages A hhdm m used pmm := by
  induction n generalizing m used pmm with
  | zero =>
    obtain rfl : m = 0 := Nat.le_zero.mp hmn
    trivial
  | succ n ih =>
    obtain ⟨h0, hframe, hnew, hrest⟩ := h
    cases m with
    | zero => trivial
    | succ m => exact ⟨h0, hframe, hnew, ih (Nat.le_of_succ_le_succ hmn) hrest⟩

/-- With fewer pages in use, fresh pages are fresh. -/
theorem FreshPages.anti {n : ℕ} (hsub : used₁ ⊆ used₂) {pmm : σ}
    (h : FreshPages A hhdm n used₂ pmm) : FreshPages A hhdm n used₁ pmm := by
  induction n generalizing used₁ used₂ pmm with
  | zero => trivial
  | succ n ih =>
    obtain ⟨h0, hframe, hnew, hrest⟩ := h
    exact ⟨h0, hframe, fun hmem => hnew (hsub hmem), ih (Set.insert_subset_insert hsub) hrest⟩

/-- The pages that `pmm_alloc` handed out between two states were fresh. -/
structure FreshBetween (A : PageAllocator σ) (hhdm : BitVec 64) (used : Set TablePtr)
    (s s' : Machine σ) : Prop where
  pages : FreshPages A hhdm (s'.allocs - s.allocs) used s.pmm

/-- The pointer to a page below `2 ^ 40` is not `NULL` when the direct map does
not wrap around. -/
theorem add_hhdm_ne_zero (hw : hhdm.toNat + 2 ^ 40 ≤ 2 ^ 64) {page : BitVec 64} (h0 : page ≠ 0#64)
    (hframe : IsFrame .kb4 page) : page + hhdm ≠ 0#64 := by
  intro hsum
  have hsum' : (page.toNat + hhdm.toNat) % 2 ^ 64 = 0 := by
    rw [← BitVec.toNat_add, hsum]
    rfl
  have hpos : page.toNat ≠ 0 := fun h => h0 (BitVec.eq_of_toNat_eq h)
  have hlt := hframe.1
  omega

/-- **The state a mapping starts from.** The freshness of the pages handed out
is asked for as long as no more than `limit` calls of `pmm_alloc` have been
made. -/
structure MapState (A : PageAllocator σ) (hhdm : BitVec 64) (pml4 : TablePtr) (limit : ℕ)
    (used : Set TablePtr) (s : Machine σ) : Prop where
  /-- The heap is a tree. -/
  tree : Unshared (entrySlot hhdm) s.mem pml4
  /-- Its tables are among the pages in use. -/
  tables_used : pageTables hhdm s.mem pml4 ⊆ used
  /-- The pages handed out up to the limit are not in use. -/
  fresh : FreshPages A hhdm (limit - s.allocs) used s.pmm

/-- **The tree has grown along the path `p`**: missing tables on it were linked
in, with pages that were not in use, and no page in use was touched but for
the tables of the tree. -/
structure Linked (A : PageAllocator σ) (hhdm : BitVec 64) (pml4 : TablePtr) (limit : ℕ)
    (p : List TableIndex) (used : Set TablePtr) (s : Machine σ) (used' : Set TablePtr)
    (s' : Machine σ) : Prop where
  used_subset : used ⊆ used'
  state : MapState A hhdm pml4 limit used' s'
  /-- No page in use has become a table. -/
  tables_of_used : ∀ t ∈ used, t ∈ pageTables hhdm s'.mem pml4 → t ∈ pageTables hhdm s.mem pml4
  /-- A page in use that is no table is unchanged. -/
  frame : ∀ t ∈ used, t ∉ pageTables hhdm s.mem pml4 → s'.mem t = s.mem t
  /-- A slot is what it was, or was free, lies on the path, and holds a table. -/
  slots : ∀ q, pageSlot hhdm s'.mem pml4 q = pageSlot hhdm s.mem pml4 q ∨
    (pageSlot hhdm s.mem pml4 q = .empty ∧ q <+: p ∧ ∃ c, pageSlot hhdm s'.mem pml4 q = .table c)

namespace Linked

variable {p q : List TableIndex} {used' : Set TablePtr}

theorem refl (p : List TableIndex) (h : MapState A hhdm pml4 limit used s) :
    Linked A hhdm pml4 limit p used s used s :=
  ⟨subset_rfl, h, fun _ _ ht => ht, fun _ _ _ => rfl, fun _ => Or.inl rfl⟩

/-- A table stays where it was. -/
theorem table (h : Linked A hhdm pml4 limit p used s used' s') {t : TablePtr}
    (ht : pageSlot hhdm s.mem pml4 q = .table t) : pageSlot hhdm s'.mem pml4 q = .table t := by
  rcases h.slots q with hq | ⟨hemp, -⟩
  · rw [hq, ht]
  · rw [ht] at hemp
    cases hemp

/-- The leaves are what they were. -/
theorem leaf?_eq (h : Linked A hhdm pml4 limit p used s used' s') (q : List TableIndex) :
    (pageSlot hhdm s'.mem pml4 q).leaf? = (pageSlot hhdm s.mem pml4 q).leaf? := by
  rcases h.slots q with hq | ⟨hemp, -, c, hc⟩
  · rw [hq]
  · rw [hemp, hc]
    rfl

/-- Two descents one after the other. -/
theorem trans (h₁ : Linked A hhdm pml4 limit p used s used₁ s₁)
    (h₂ : Linked A hhdm pml4 limit q used₁ s₁ used₂ s₂) (hpq : p <+: q) :
    Linked A hhdm pml4 limit q used s used₂ s₂ where
  used_subset := h₁.used_subset.trans h₂.used_subset
  state := h₂.state
  tables_of_used t ht h := h₁.tables_of_used t ht (h₂.tables_of_used t (h₁.used_subset ht) h)
  frame t ht h := by
    rw [h₂.frame t (h₁.used_subset ht) (fun hmem => h (h₁.tables_of_used t ht hmem)),
      h₁.frame t ht h]
  slots r := by
    rcases h₁.slots r with hr₁ | ⟨hemp, hpre, c, hc⟩
    · rcases h₂.slots r with hr₂ | ⟨hemp, hpre, hc⟩
      · exact Or.inl (hr₂.trans hr₁)
      · exact Or.inr ⟨hr₁.symm.trans hemp, hpre, hc⟩
    · exact Or.inr ⟨hemp, hpre.trans hpq, c, h₂.table hc⟩

end Linked

/-! ## One table further -/

/-- A present entry is followed, whatever it is. -/
theorem nextTable_of_present {t : TablePtr} {i : TableIndex} (level : PageTableLevel)
    (h : (s.mem t i).present = true) :
    nextTable A hhdm level t i s = (some ((s.mem t i).tableAddress + hhdm), s) := by
  simp [nextTable, h]

/-- `pmm_alloc` is called at most once. -/
theorem allocs_nextTable (level : PageTableLevel) (t : TablePtr) (i : TableIndex) (s : Machine σ) :
    s.allocs ≤ (nextTable A hhdm level t i s).2.allocs
      ∧ (nextTable A hhdm level t i s).2.allocs ≤ s.allocs + 1 := by
  unfold nextTable
  by_cases hp : (s.mem t i).present = false
  · by_cases hptr : (A.pmmAlloc s.pmm).1 + hhdm = 0#64 <;> simp [hp, hptr]
  · simp [hp]

/-- A present entry that names a table leads to it, and nothing happens. -/
theorem nextTable_of_table {p : List TableIndex} {t c : TablePtr} {i : TableIndex}
    (level : PageTableLevel) (ht : pageSlot hhdm s.mem pml4 p = .table t)
    (hc : pageSlot hhdm s.mem pml4 (p ++ [i]) = .table c) :
    nextTable A hhdm level t i s = (some c, s) := by
  obtain ⟨u, hu, -, hp, -, rfl⟩ := entry_of_pageSlot_table hc
  obtain rfl : t = u := by simpa [ht] using hu
  exact nextTable_of_present level hp

/-- The entry a new table is linked in with names it, at every depth but the
PT's. -/
theorem entrySlot_link {page : BitVec 64} {level : PageTableLevel} {d : ℕ}
    (hframe : IsFrame .kb4 page) (hl : level ≠ .pt) (hd : d ≤ 2) :
    entrySlot hhdm d (pagingCreateEntry (page + hhdm - hhdm)
      (pagingFlagPresent ||| pagingFlagWritable) level .pointer) = .table (page + hhdm) := by
  rw [BitVec.add_sub_cancel]
  have hpr : (pagingCreateEntry page (pagingFlagPresent ||| pagingFlagWritable) level
      .pointer).present = true := by
    rw [present_pagingCreateEntry]
    rfl
  have hps : (pagingCreateEntry page (pagingFlagPresent ||| pagingFlagWritable) level
      .pointer).pageSize = false := by
    rw [pageSize_pagingCreateEntry]
    rfl
  have ha := tableAddress_pagingCreateEntry hframe (pagingFlagPresent ||| pagingFlagWritable) hl
  obtain rfl | rfl | rfl : d = 0 ∨ d = 1 ∨ d = 2 := by omega
  · simp only [entrySlot, hpr, ha, if_true]
  · simp only [entrySlot, hpr, hps, ha, if_true, Bool.false_eq_true, if_false]
  · simp only [entrySlot, hpr, hps, ha, if_true, Bool.false_eq_true, if_false]

/-- The state after a table has been created and linked in. -/
def linkNext (A : PageAllocator σ) (hhdm : BitVec 64) (level : PageTableLevel) (t : TablePtr)
    (i : TableIndex) (s : Machine σ) : Machine σ :=
  ((s.afterAlloc A).zeroPage ((A.pmmAlloc s.pmm).1 + hhdm)).storeEntry t i
    (pagingCreateEntry ((A.pmmAlloc s.pmm).1 + hhdm - hhdm)
      (pagingFlagPresent ||| pagingFlagWritable) level .pointer)

/-- The new page is empty. -/
theorem mem_linkNext_self {t : TablePtr} {i j : TableIndex} (level : PageTableLevel)
    (ht : (A.pmmAlloc s.pmm).1 + hhdm ≠ t) :
    (linkNext A hhdm level t i s).mem ((A.pmmAlloc s.pmm).1 + hhdm) j = 0#64 := by
  rw [linkNext, Machine.mem_storeEntry_of_ne_table ht, Machine.mem_zeroPage_self]

/-- A free entry gets a new table, unless its pointer is `NULL`. -/
theorem nextTable_of_free {t : TablePtr} {i : TableIndex} (level : PageTableLevel)
    (hp : (s.mem t i).present = false) (hptr : (A.pmmAlloc s.pmm).1 + hhdm ≠ 0#64) :
    nextTable A hhdm level t i s
      = (some ((A.pmmAlloc s.pmm).1 + hhdm), linkNext A hhdm level t i s) := by
  simp only [nextTable, hp, if_true, if_neg hptr]
  rfl

@[simp] theorem allocs_linkNext (level : PageTableLevel) (t : TablePtr) (i : TableIndex)
    (s : Machine σ) : (linkNext A hhdm level t i s).allocs = s.allocs + 1 := by
  rw [linkNext, Machine.allocs_storeEntry, Machine.allocs_zeroPage, Machine.allocs_afterAlloc]

/-- Outside the new page, one word has changed. -/
theorem mem_linkNext {t u : TablePtr} {i j : TableIndex} (level : PageTableLevel)
    (hu : u ≠ (A.pmmAlloc s.pmm).1 + hhdm) (huj : (u, j) ≠ (t, i)) :
    (linkNext A hhdm level t i s).mem u j = s.mem u j := by
  rw [linkNext, Machine.mem_storeEntry_of_ne huj, Machine.mem_zeroPage_of_ne hu,
    Machine.mem_afterAlloc]

/-- **A table linked in** takes the free slot, and nothing else changes. -/
theorem slotAt_linkNext {p : List TableIndex} {t : TablePtr} {i : TableIndex}
    {level : PageTableLevel} (htree : Unshared (entrySlot hhdm) s.mem pml4)
    (hframe : IsFrame .kb4 (A.pmmAlloc s.pmm).1)
    (hnew : (A.pmmAlloc s.pmm).1 + hhdm ∉ pageTables hhdm s.mem pml4)
    (ht : pageSlot hhdm s.mem pml4 p = .table t) (hd : p.length ≤ 2) (hl : level ≠ .pt)
    (hfree : pageSlot hhdm s.mem pml4 (p ++ [i]) = .empty) :
    slotAt (entrySlot hhdm) (linkNext A hhdm level t i s).mem pml4
      = Function.update (slotAt (entrySlot hhdm) s.mem pml4) (p ++ [i])
        (.table ((A.pmmAlloc s.pmm).1 + hhdm)) := by
  refine slotAt_write htree ht (fun j => ?_) (fun q u hu j huj => ?_) ?_ ?_
  · exact slotAt_append_of_not_table (by simp) (fun u hu => by cases hu.symm.trans hfree)
  · rw [mem_linkNext level (fun heq => hnew (heq ▸ mem_tables hu)) huj]
  · rw [linkNext, Machine.mem_storeEntry_self]
    exact entrySlot_link hframe hl hd
  · intro c hc j
    obtain rfl : (A.pmmAlloc s.pmm).1 + hhdm = c := by simpa using hc
    have hne : (A.pmmAlloc s.pmm).1 + hhdm ≠ t := fun heq => hnew (heq ▸ mem_tables ht)
    refine entrySlot_of_not_present ?_ _
    rw [mem_linkNext_self level hne]
    exact present_zero

/-- The page the next call of `pmm_alloc` hands out is fresh as long as the
limit is not reached. -/
theorem MapState.next (h : MapState A hhdm pml4 limit used s) (hlt : s.allocs + 1 ≤ limit) :
    (A.pmmAlloc s.pmm).1 ≠ 0#64 ∧ IsFrame .kb4 (A.pmmAlloc s.pmm).1
      ∧ (A.pmmAlloc s.pmm).1 + hhdm ∉ used
      ∧ FreshPages A hhdm (limit - (s.allocs + 1)) (insert ((A.pmmAlloc s.pmm).1 + hhdm) used)
        (A.pmmAlloc s.pmm).2 := by
  have hfresh := h.fresh
  rwa [show limit - s.allocs = limit - (s.allocs + 1) + 1 by omega] at hfresh

/-- Where an entry is free, finding the next table takes one page. -/
theorem allocs_nextTable_of_free {t : TablePtr} {i : TableIndex} (level : PageTableLevel)
    (hp : (s.mem t i).present = false) :
    (nextTable A hhdm level t i s).2.allocs = s.allocs + 1 := by
  by_cases hptr : (A.pmmAlloc s.pmm).1 + hhdm = 0#64
  · simp [nextTable, hp, hptr]
  · rw [nextTable_of_free level hp hptr, allocs_linkNext]

/-- **A fresh table linked in** makes the tree grow along the path of its
slot. -/
theorem linked_linkNext {p : List TableIndex} {t : TablePtr} {i : TableIndex}
    {level : PageTableLevel} (h : MapState A hhdm pml4 limit used s)
    (hlimit : s.allocs + 1 ≤ limit) (ht : pageSlot hhdm s.mem pml4 p = .table t)
    (hd : p.length ≤ 2) (hl : level ≠ .pt)
    (hfree : pageSlot hhdm s.mem pml4 (p ++ [i]) = .empty) :
    pageSlot hhdm (linkNext A hhdm level t i s).mem pml4 (p ++ [i])
        = .table ((A.pmmAlloc s.pmm).1 + hhdm)
      ∧ Linked A hhdm pml4 limit (p ++ [i]) used s
          (insert ((A.pmmAlloc s.pmm).1 + hhdm) used) (linkNext A hhdm level t i s) := by
  obtain ⟨-, hframe, hnew, hrest⟩ := h.next hlimit
  have hslots := slotAt_linkNext h.tree hframe (fun hmem => hnew (h.tables_used hmem)) ht hd hl
    hfree
  set page := (A.pmmAlloc s.pmm).1 with hpage
  set s' := linkNext A hhdm level t i s with hs'
  have hslot : pageSlot hhdm s'.mem pml4 (p ++ [i]) = .table (page + hhdm) := by
    rw [pageSlot, hslots, Function.update_self]
  have htables : ∀ u ∈ pageTables hhdm s'.mem pml4,
      u ∈ pageTables hhdm s.mem pml4 ∨ u = page + hhdm := by
    intro u hu
    rcases mem_tables_of_update hslots hu with hu | hu
    · exact Or.inl hu
    · exact Or.inr (by simpa using hu.symm)
  refine ⟨hslot, Set.subset_insert _ _, ⟨?_, ?_, ?_⟩, ?_, ?_, ?_⟩
  · refine h.tree.update hslots (fun c hc => ?_)
    obtain rfl : page + hhdm = c := by simpa using hc
    exact fun hmem => hnew (h.tables_used hmem)
  · intro u hu
    rcases htables u hu with hu | rfl
    · exact Set.mem_insert_of_mem _ (h.tables_used hu)
    · exact Set.mem_insert _ _
  · rw [hs', allocs_linkNext]
    exact hrest
  · intro u hu hmem
    rcases htables u hmem with hmem | rfl
    · exact hmem
    · exact absurd hu hnew
  · intro u hu hmem
    funext j
    refine mem_linkNext level (fun heq => hnew (heq ▸ hu)) (fun huj => ?_)
    exact hmem ((Prod.mk.inj huj).1 ▸ mem_tables ht)
  · intro q
    by_cases hq : q = p ++ [i]
    · subst hq
      exact Or.inr ⟨hfree, List.prefix_rfl, page + hhdm, hslot⟩
    · exact Or.inl (by rw [pageSlot, hslots, Function.update_of_ne hq])

/-- **The step of a descent**: the next table is found or linked in. -/
theorem nextTable_spec (hw : hhdm.toNat + 2 ^ 40 ≤ 2 ^ 64) {p : List TableIndex} {t : TablePtr}
    {i : TableIndex} {level : PageTableLevel} (h : MapState A hhdm pml4 limit used s)
    (hlimit : (nextTable A hhdm level t i s).2.allocs ≤ limit)
    (ht : pageSlot hhdm s.mem pml4 p = .table t) (hd : p.length ≤ 2) (hl : level ≠ .pt)
    (hleaf : (pageSlot hhdm s.mem pml4 (p ++ [i])).leaf? = none) :
    ∃ c used' s', nextTable A hhdm level t i s = (some c, s')
      ∧ pageSlot hhdm s'.mem pml4 (p ++ [i]) = .table c
      ∧ Linked A hhdm pml4 limit (p ++ [i]) used s used' s' := by
  rcases pageSlot_snoc_cases (by omega) ht i with ⟨hemp, hp⟩ | ⟨-, hc, -⟩ | ⟨-, he, -⟩
  · -- the entry is free: a page is fetched, zeroed and linked in
    rw [allocs_nextTable_of_free level hp] at hlimit
    obtain ⟨h0, hframe, -⟩ := h.next hlimit
    exact ⟨_, _, _, nextTable_of_free level hp (add_hhdm_ne_zero hw h0 hframe),
      linked_linkNext h hlimit ht hd hl hemp⟩
  · exact ⟨_, used, s, nextTable_of_table level ht hc, hc, Linked.refl _ h⟩
  · rw [he] at hleaf
    cases hleaf

/-! ## The descent as a loop -/

/-- The descent of a mapping along a list of levels and indices. -/
def nextTables (A : PageAllocator σ) (hhdm : BitVec 64) :
    List (PageTableLevel × TableIndex) → TablePtr → Machine σ → Option TablePtr × Machine σ
  | [], table, s => (some table, s)
  | (level, idx) :: steps, table, s =>
    match nextTable A hhdm level table idx s with
    | (none, s) => (none, s)
    | (some table, s) => nextTables A hhdm steps table s

/-- The steps a mapping takes down to the table its leaf belongs in. -/
def pageSteps (size : PageSize) (virt : BitVec 64) : List (PageTableLevel × TableIndex) :=
  match size with
  | .gb1 => [(.pml4, pml4Idx virt)]
  | .mb2 => [(.pml4, pml4Idx virt), (.pdpr, pdprIdx virt)]
  | .kb4 => [(.pml4, pml4Idx virt), (.pdpr, pdprIdx virt), (.pd, pdIdx virt)]

/-- The path of the table the leaf belongs in. -/
def tablePath (size : PageSize) (virt : BitVec 64) : List TableIndex :=
  (pageSteps size virt).map Prod.snd

/-- The index of the leaf in its table. -/
def leafIdx (size : PageSize) (virt : BitVec 64) : TableIndex :=
  match size with
  | .gb1 => pdprIdx virt
  | .mb2 => pdIdx virt
  | .kb4 => ptIdx virt

theorem pagePath_eq_snoc (size : PageSize) (virt : BitVec 64) :
    pagePath size virt = tablePath size virt ++ [leafIdx size virt] := by
  cases size <;> rfl

/-- **A mapping is its descent and the store of the leaf.** -/
theorem pagingMapPage_eq_nextTables (phys virt : BitVec 64) (size : PageSize) (flags : BitVec 64)
    (s : Machine σ) :
    pagingMapPageWithoutTlbInvalidation A hhdm pml4 phys virt size flags s
      = match nextTables A hhdm (pageSteps size virt) pml4 s with
        | (none, s) => (.error, s)
        | (some table, s) => mapLeaf size.level table (leafIdx size virt) phys flags s := by
  unfold pagingMapPageWithoutTlbInvalidation
  cases size with
  | gb1 =>
    simp only [pageSteps, nextTables, leafIdx, PageSize.level, if_true]
    rcases nextTable A hhdm .pml4 pml4 (pml4Idx virt) s with ⟨_ | pdpr, s⟩ <;> rfl
  | mb2 =>
    simp only [pageSteps, nextTables, leafIdx, PageSize.level, if_true, reduceCtorEq, if_false]
    rcases nextTable A hhdm .pml4 pml4 (pml4Idx virt) s with ⟨_ | pdpr, s⟩
    · rfl
    · dsimp only
      rcases nextTable A hhdm .pdpr pdpr (pdprIdx virt) s with ⟨_ | pd, s⟩ <;> rfl
  | kb4 =>
    simp only [pageSteps, nextTables, leafIdx, PageSize.level, reduceCtorEq, if_false]
    rcases nextTable A hhdm .pml4 pml4 (pml4Idx virt) s with ⟨_ | pdpr, s⟩
    · rfl
    · dsimp only
      rcases nextTable A hhdm .pdpr pdpr (pdprIdx virt) s with ⟨_ | pd, s⟩
      · rfl
      · dsimp only
        rcases nextTable A hhdm .pd pd (pdIdx virt) s with ⟨_ | pt, s⟩ <;> rfl

/-- `pmm_alloc` is called at most once a step. -/
theorem allocs_nextTables (steps : List (PageTableLevel × TableIndex)) (t : TablePtr)
    (s : Machine σ) :
    s.allocs ≤ (nextTables A hhdm steps t s).2.allocs
      ∧ (nextTables A hhdm steps t s).2.allocs ≤ s.allocs + steps.length := by
  induction steps generalizing t s with
  | nil => exact ⟨le_rfl, le_rfl⟩
  | cons step steps ih =>
    obtain ⟨level, i⟩ := step
    have hstep := @allocs_nextTable σ A hhdm level t i s
    unfold nextTables
    rw [List.length_cons]
    rcases hnext : nextTable A hhdm level t i s with ⟨_ | u, s₁⟩
    · rw [hnext] at hstep
      exact ⟨hstep.1, by dsimp only at hstep ⊢; omega⟩
    · rw [hnext] at hstep
      have hrest := ih u s₁
      dsimp only at hstep ⊢
      omega

/-- The first step of a descent keeps to the limit of the whole. -/
theorem allocs_nextTables_cons {step : PageTableLevel × TableIndex}
    {steps : List (PageTableLevel × TableIndex)} {t : TablePtr}
    (h : (nextTables A hhdm (step :: steps) t s).2.allocs ≤ limit) :
    (nextTable A hhdm step.1 t step.2 s).2.allocs ≤ limit := by
  refine le_trans ?_ h
  unfold nextTables
  rcases nextTable A hhdm step.1 t step.2 s with ⟨_ | u, s₁⟩
  · exact le_rfl
  · exact (allocs_nextTables steps u s₁).1

/-- Along tables that are all there, a descent finds its way and changes
nothing. -/
theorem nextTables_of_table {steps : List (PageTableLevel × TableIndex)} {p : List TableIndex}
    {t c : TablePtr} (ht : pageSlot hhdm s.mem pml4 p = .table t)
    (hc : pageSlot hhdm s.mem pml4 (p ++ steps.map Prod.snd) = .table c) :
    nextTables A hhdm steps t s = (some c, s) := by
  induction steps generalizing p t with
  | nil =>
    obtain rfl : t = c := by simpa [ht] using hc
    rfl
  | cons step steps ih =>
    obtain ⟨level, i⟩ := step
    rw [List.map_cons, List.append_cons] at hc
    have hnext : ∃ u, pageSlot hhdm s.mem pml4 (p ++ [i]) = .table u := by
      by_cases hnil : steps.map Prod.snd = []
      · exact ⟨c, by rwa [hnil, List.append_nil] at hc⟩
      · refine exists_table_of_append hnil ?_
        rw [show slotAt (entrySlot hhdm) s.mem pml4 (p ++ [i] ++ steps.map Prod.snd) = .table c
          from hc]
        simp
    obtain ⟨u, hu⟩ := hnext
    rw [nextTables, nextTable_of_table level ht hu]
    exact ih hu hc

/-- **The induction of a descent**: from a table found at `p`, with no leaf on
the way, the steps lead to the table of their path, linking in what was
missing. -/
theorem nextTables_spec (hw : hhdm.toNat + 2 ^ 40 ≤ 2 ^ 64)
    {steps : List (PageTableLevel × TableIndex)} {p : List TableIndex} {t : TablePtr}
    (h : MapState A hhdm pml4 limit used s)
    (hlimit : (nextTables A hhdm steps t s).2.allocs ≤ limit)
    (ht : pageSlot hhdm s.mem pml4 p = .table t) (hd : p.length + steps.length ≤ 3)
    (hl : ∀ step ∈ steps, step.1 ≠ .pt)
    (hleaf : ∀ q, q <+: steps.map Prod.snd → (pageSlot hhdm s.mem pml4 (p ++ q)).leaf? = none) :
    ∃ c used' s', nextTables A hhdm steps t s = (some c, s')
      ∧ pageSlot hhdm s'.mem pml4 (p ++ steps.map Prod.snd) = .table c
      ∧ Linked A hhdm pml4 limit (p ++ steps.map Prod.snd) used s used' s' := by
  induction steps generalizing p t s used with
  | nil =>
    refine ⟨t, used, s, rfl, ?_, Linked.refl _ h⟩
    rwa [List.map_nil, List.append_nil]
  | cons step steps ih =>
    obtain ⟨level, i⟩ := step
    rw [List.length_cons] at hd
    have hstep : (pageSlot hhdm s.mem pml4 (p ++ [i])).leaf? = none :=
      hleaf [i] ⟨steps.map Prod.snd, rfl⟩
    have hfirst := allocs_nextTables_cons hlimit
    obtain ⟨u, used₁, s₁, hu, hslot, hlink⟩ := nextTable_spec hw h hfirst ht (by omega)
      (hl (level, i) List.mem_cons_self) hstep
    have hrest : (nextTables A hhdm steps u s₁).2.allocs ≤ limit := by
      rwa [nextTables, hu] at hlimit
    obtain ⟨c, used₂, s₂, hc, hslot₂, hlink₂⟩ := ih hlink.state hrest hslot
      (by rw [List.length_append, List.length_singleton]; omega)
      (fun step hmem => hl step (List.mem_cons_of_mem _ hmem))
      (fun q hq => by
        rw [hlink.leaf?_eq, List.append_assoc]
        exact hleaf (i :: q) (List.cons_prefix_cons.mpr ⟨rfl, hq⟩))
    rw [List.append_assoc] at hslot₂ hlink₂
    refine ⟨c, used₂, s₂, ?_, hslot₂, hlink.trans hlink₂ ?_⟩
    · rw [nextTables, hu]
      exact hc
    · rw [List.map_cons]
      exact List.prefix_append_right_inj p |>.mpr (List.cons_prefix_cons.mpr ⟨rfl, List.nil_prefix⟩)

/-- **What linking a fresh table in keeps, a descent keeps.** -/
theorem nextTables_invariant (hw : hhdm.toNat + 2 ^ 40 ≤ 2 ^ 64) {P : Machine σ → Prop}
    (hlink : ∀ used p t i level s, MapState A hhdm pml4 limit used s → s.allocs + 1 ≤ limit →
      pageSlot hhdm s.mem pml4 p = .table t → p.length ≤ 2 → level ≠ .pt →
      pageSlot hhdm s.mem pml4 (p ++ [i]) = .empty → P s → P (linkNext A hhdm level t i s))
    {steps : List (PageTableLevel × TableIndex)} {p : List TableIndex} {t : TablePtr}
    (h : MapState A hhdm pml4 limit used s) (hP : P s)
    (hlimit : (nextTables A hhdm steps t s).2.allocs ≤ limit)
    (ht : pageSlot hhdm s.mem pml4 p = .table t) (hd : p.length + steps.length ≤ 3)
    (hl : ∀ step ∈ steps, step.1 ≠ .pt)
    (hleaf : ∀ q, q <+: steps.map Prod.snd → (pageSlot hhdm s.mem pml4 (p ++ q)).leaf? = none) :
    P (nextTables A hhdm steps t s).2 := by
  induction steps generalizing p t s used with
  | nil => exact hP
  | cons step steps ih =>
    obtain ⟨level, i⟩ := step
    rw [List.length_cons] at hd
    have hl₁ : level ≠ .pt := hl (level, i) List.mem_cons_self
    have hstep : (pageSlot hhdm s.mem pml4 (p ++ [i])).leaf? = none :=
      hleaf [i] ⟨steps.map Prod.snd, rfl⟩
    have hfirst := allocs_nextTables_cons hlimit
    obtain ⟨u, used₁, s₁, hu, hslot, hlinked⟩ := nextTable_spec hw h hfirst ht (by omega) hl₁ hstep
    have hP₁ : P s₁ := by
      rcases pageSlot_snoc_cases (by omega) ht i with ⟨hemp, hp⟩ | ⟨-, hc, -⟩ | ⟨-, he, -⟩
      · rw [allocs_nextTable_of_free level hp] at hfirst
        obtain ⟨h0, hframe, -⟩ := h.next hfirst
        rw [nextTable_of_free level hp (add_hhdm_ne_zero hw h0 hframe)] at hu
        obtain ⟨-, rfl⟩ := Prod.mk.inj hu
        exact hlink used p t i level s h hfirst ht (by omega) hl₁ hemp hP
      · rw [nextTable_of_table level ht hc] at hu
        obtain ⟨-, rfl⟩ := Prod.mk.inj hu
        exact hP
      · rw [he] at hstep
        cases hstep
    rw [nextTables, hu] at hlimit ⊢
    refine ih hlinked.state hP₁ hlimit hslot ?_ (fun step hmem => hl step
      (List.mem_cons_of_mem _ hmem)) (fun q hq => ?_)
    · rw [List.length_append, List.length_singleton]
      omega
    · rw [hlinked.leaf?_eq, List.append_assoc]
      exact hleaf (i :: q) (List.cons_prefix_cons.mpr ⟨rfl, hq⟩)

/-! ## The whole mapping -/

/-- The flags a leaf of a size needs to be one: `PAGING_FLAG_PRESENT`, and
`PAGING_FLAG_PAGE_SIZE` for the large pages. -/
def LeafFlags (size : PageSize) (flags : BitVec 64) : Prop :=
  flags.getLsbD 0 = true ∧ (size ≠ .kb4 → flags.getLsbD 7 = true)

instance (size : PageSize) (flags : BitVec 64) : Decidable (LeafFlags size flags) :=
  inferInstanceAs (Decidable (_ ∧ _))

/-- The leaf a mapping stores reads as one. -/
theorem entrySlot_leaf {size : PageSize} {flags : BitVec 64} (hf : LeafFlags size flags)
    (phys virt : BitVec 64) :
    entrySlot hhdm (tablePath size virt).length (pagingCreateEntry phys flags size.level .page)
      = .leaf (pagingCreateEntry phys flags size.level .page) := by
  have hp : (pagingCreateEntry phys flags size.level .page).present = true := by
    rw [present_pagingCreateEntry, hf.1]
  have hs : size ≠ .kb4 → (pagingCreateEntry phys flags size.level .page).pageSize = true := by
    intro hne
    rw [pageSize_pagingCreateEntry, hf.2 hne]
  cases size with
  | kb4 => simp [tablePath, pageSteps, entrySlot, hp]
  | mb2 => simp [tablePath, pageSteps, entrySlot, hp, hs]
  | gb1 => simp [tablePath, pageSteps, entrySlot, hp, hs]

/-- **The store of a leaf** takes the free slot, and nothing else changes. -/
theorem slotAt_storeLeaf {size : PageSize} {virt flags : BitVec 64} {t : TablePtr}
    (phys : BitVec 64) (htree : Unshared (entrySlot hhdm) s.mem pml4)
    (ht : pageSlot hhdm s.mem pml4 (tablePath size virt) = .table t) (hf : LeafFlags size flags)
    (hfree : pageSlot hhdm s.mem pml4 (tablePath size virt ++ [leafIdx size virt]) = .empty) :
    slotAt (entrySlot hhdm) (s.storeEntry t (leafIdx size virt)
        (pagingCreateEntry phys flags size.level .page)).mem pml4
      = Function.update (slotAt (entrySlot hhdm) s.mem pml4)
        (tablePath size virt ++ [leafIdx size virt])
        (.leaf (pagingCreateEntry phys flags size.level .page)) := by
  refine slotAt_write htree ht (fun j => ?_) (fun q u hu j huj => ?_) ?_ (by simp)
  · exact slotAt_append_of_not_table (by simp) (fun u hu => by cases hu.symm.trans hfree)
  · rw [Machine.mem_storeEntry_of_ne huj]
  · rw [Machine.mem_storeEntry_self]
    exact entrySlot_leaf hf phys virt

/-- **The leaf `e` has been mapped at the path `p`**: it is found there, the
tables above it are there, and nothing else has changed. -/
structure Mapped (A : PageAllocator σ) (hhdm : BitVec 64) (pml4 : TablePtr) (limit : ℕ)
    (p : List TableIndex) (e : PageTableEntry) (used : Set TablePtr) (s : Machine σ)
    (used' : Set TablePtr) (s' : Machine σ) : Prop where
  used_subset : used ⊆ used'
  state : MapState A hhdm pml4 limit used' s'
  tables_of_used : ∀ t ∈ used, t ∈ pageTables hhdm s'.mem pml4 → t ∈ pageTables hhdm s.mem pml4
  frame : ∀ t ∈ used, t ∉ pageTables hhdm s.mem pml4 → s'.mem t = s.mem t
  leaf : pageSlot hhdm s'.mem pml4 p = .leaf e
  slots : ∀ q ≠ p, pageSlot hhdm s'.mem pml4 q = pageSlot hhdm s.mem pml4 q ∨
    (pageSlot hhdm s.mem pml4 q = .empty ∧ q <+: p ∧ ∃ c, pageSlot hhdm s'.mem pml4 q = .table c)

/-- **An occupied slot**: mapping it fails and changes nothing, whatever the
rest of memory holds. -/
theorem pagingMapPage_of_occupied {size : PageSize} {virt : BitVec 64} (phys flags : BitVec 64)
    (h : pageSlot hhdm s.mem pml4 (pagePath size virt) ≠ .empty) :
    pagingMapPageWithoutTlbInvalidation A hhdm pml4 phys virt size flags s = (.error, s) := by
  rw [pagePath_eq_snoc] at h
  obtain ⟨t, ht, hread⟩ := exists_table_of_snoc h
  have hp : (s.mem t (leafIdx size virt)).present = true := by
    by_contra hne
    refine h (hread.trans (entrySlot_of_not_present ?_ _))
    simpa using hne
  have hroot : pageSlot hhdm s.mem pml4 [] = .table pml4 := rfl
  rw [pagingMapPage_eq_nextTables, nextTables_of_table (c := t) hroot ht]
  simp only [mapLeaf, hp, if_true]

/-- A mapping calls `pmm_alloc` as often as its descent. -/
theorem allocs_pagingMapPage_eq (phys virt : BitVec 64) (size : PageSize) (flags : BitVec 64)
    (s : Machine σ) :
    (pagingMapPageWithoutTlbInvalidation A hhdm pml4 phys virt size flags s).2.allocs
      = (nextTables A hhdm (pageSteps size virt) pml4 s).2.allocs := by
  rw [pagingMapPage_eq_nextTables]
  rcases nextTables A hhdm (pageSteps size virt) pml4 s with ⟨_ | t, s₁⟩
  · rfl
  · show (mapLeaf size.level t (leafIdx size virt) phys flags s₁).2.allocs = s₁.allocs
    unfold mapLeaf
    by_cases hp : (s₁.mem t (leafIdx size virt)).present = true <;> simp [hp]

/-- A mapping calls `pmm_alloc` at most three times. -/
theorem allocs_pagingMapPage (phys virt : BitVec 64) (size : PageSize) (flags : BitVec 64)
    (s : Machine σ) :
    s.allocs ≤ (pagingMapPageWithoutTlbInvalidation A hhdm pml4 phys virt size flags s).2.allocs
      ∧ (pagingMapPageWithoutTlbInvalidation A hhdm pml4 phys virt size flags s).2.allocs
        ≤ s.allocs + 3 := by
  have hdown := @allocs_nextTables σ A hhdm (pageSteps size virt) pml4 s
  have hlen : (pageSteps size virt).length ≤ 3 := by cases size <;> simp [pageSteps]
  rw [allocs_pagingMapPage_eq]
  omega

/-- **The leaf stored** in the table at the end of a descent. -/
theorem Linked.mapped {size : PageSize} {virt flags : BitVec 64} {t : TablePtr}
    (hlink : Linked A hhdm pml4 limit (tablePath size virt) used s used₁ s₁) (phys : BitVec 64)
    (ht : pageSlot hhdm s₁.mem pml4 (tablePath size virt) = .table t) (hf : LeafFlags size flags)
    (hfree : pageSlot hhdm s₁.mem pml4 (tablePath size virt ++ [leafIdx size virt]) = .empty) :
    Mapped A hhdm pml4 limit (tablePath size virt ++ [leafIdx size virt])
      (pagingCreateEntry phys flags size.level .page) used s used₁
      (s₁.storeEntry t (leafIdx size virt) (pagingCreateEntry phys flags size.level .page)) := by
  have hslots := slotAt_storeLeaf phys hlink.state.tree ht hf hfree
  set e := pagingCreateEntry phys flags size.level .page with he
  set i := leafIdx size virt with hi
  set s₂ := s₁.storeEntry t i e with hs₂
  have htables : ∀ u ∈ pageTables hhdm s₂.mem pml4, u ∈ pageTables hhdm s₁.mem pml4 := by
    intro u hu
    exact (mem_tables_of_update hslots hu).resolve_right (by simp)
  refine ⟨hlink.used_subset, ⟨?_, ?_, ?_⟩, ?_, ?_, ?_, ?_⟩
  · exact hlink.state.tree.update hslots (by simp)
  · exact fun u hu => hlink.state.tables_used (htables u hu)
  · rw [hs₂, Machine.allocs_storeEntry]
    exact hlink.state.fresh
  · exact fun u hu hmem => hlink.tables_of_used u hu (htables u hmem)
  · intro u hu hmem
    have hne : u ≠ t := fun heq =>
      hmem (hlink.tables_of_used u hu (heq ▸ mem_tables ht))
    rw [hs₂, Machine.mem_storeEntry_of_ne_table hne, hlink.frame u hu hmem]
  · rw [pageSlot, hslots, Function.update_self]
  · intro q hq
    have hsame : pageSlot hhdm s₂.mem pml4 q = pageSlot hhdm s₁.mem pml4 q := by
      rw [pageSlot, hslots, Function.update_of_ne hq]
    rcases hlink.slots q with h₁ | ⟨hemp, hpre, c, hc⟩
    · exact Or.inl (hsame.trans h₁)
    · exact Or.inr ⟨hemp, hpre.trans (List.prefix_append _ _), c, hsame.trans hc⟩

/-- **The descent of a mapping** to a free slot under no leaf ends in the table
the leaf belongs in, and the leaf is stored there. -/
theorem pagingMapPage_descent (hw : hhdm.toNat + 2 ^ 40 ≤ 2 ^ 64) {size : PageSize}
    {virt phys flags : BitVec 64} (h : MapState A hhdm pml4 limit used s)
    (hlimit : (pagingMapPageWithoutTlbInvalidation A hhdm pml4 phys virt size flags s).2.allocs
      ≤ limit)
    (habove : ∀ q, q <+: tablePath size virt → (pageSlot hhdm s.mem pml4 q).leaf? = none)
    (hfree : pageSlot hhdm s.mem pml4 (pagePath size virt) = .empty) :
    ∃ t used₁ s₁, nextTables A hhdm (pageSteps size virt) pml4 s = (some t, s₁)
      ∧ pageSlot hhdm s₁.mem pml4 (tablePath size virt) = .table t
      ∧ Linked A hhdm pml4 limit (tablePath size virt) used s used₁ s₁
      ∧ pageSlot hhdm s₁.mem pml4 (tablePath size virt ++ [leafIdx size virt]) = .empty
      ∧ pagingMapPageWithoutTlbInvalidation A hhdm pml4 phys virt size flags s
        = (.ok, s₁.storeEntry t (leafIdx size virt)
            (pagingCreateEntry phys flags size.level .page)) := by
  have hlen : (pageSteps size virt).length ≤ 3 := by cases size <;> simp [pageSteps]
  have hroot : pageSlot hhdm s.mem pml4 [] = .table pml4 := rfl
  rw [allocs_pagingMapPage_eq] at hlimit
  obtain ⟨t, used₁, s₁, hdown, ht, hlink⟩ := nextTables_spec hw h hlimit hroot
    (by rw [List.length_nil]; omega)
    (by cases size <;> simp [pageSteps]) habove
  change pageSlot hhdm s₁.mem pml4 (tablePath size virt) = .table t at ht
  change Linked A hhdm pml4 limit (tablePath size virt) used s used₁ s₁ at hlink
  rw [pagePath_eq_snoc] at hfree
  -- the slot of the leaf is not on the path of the tables, so it is still free
  have hfree₁ : pageSlot hhdm s₁.mem pml4 (tablePath size virt ++ [leafIdx size virt])
      = .empty := by
    rcases hlink.slots (tablePath size virt ++ [leafIdx size virt]) with hq | ⟨-, hpre, -⟩
    · rw [hq, hfree]
    · have hle := hpre.length_le
      rw [List.length_append, List.length_singleton] at hle
      omega
  have hd : (tablePath size virt).length ≤ 3 := by cases size <;> simp [tablePath, pageSteps]
  have hp : (s₁.mem t (leafIdx size virt)).present = false :=
    not_present_of_pageSlot_empty hd ht hfree₁
  refine ⟨t, used₁, s₁, hdown, ht, hlink, hfree₁, ?_⟩
  rw [pagingMapPage_eq_nextTables, hdown]
  simp only [mapLeaf, hp, Bool.false_eq_true, if_false]

/-- **A free slot**: under no leaf, mapping it succeeds, and does what
`Mapped` says. -/
theorem pagingMapPage_of_free (hw : hhdm.toNat + 2 ^ 40 ≤ 2 ^ 64) {size : PageSize}
    {virt phys flags : BitVec 64} (h : MapState A hhdm pml4 limit used s)
    (hlimit : (pagingMapPageWithoutTlbInvalidation A hhdm pml4 phys virt size flags s).2.allocs
      ≤ limit)
    (hf : LeafFlags size flags)
    (habove : ∀ q, q <+: tablePath size virt → (pageSlot hhdm s.mem pml4 q).leaf? = none)
    (hfree : pageSlot hhdm s.mem pml4 (pagePath size virt) = .empty) :
    ∃ used' s', pagingMapPageWithoutTlbInvalidation A hhdm pml4 phys virt size flags s = (.ok, s')
      ∧ Mapped A hhdm pml4 limit (pagePath size virt)
          (pagingCreateEntry phys flags size.level .page) used s used' s' := by
  obtain ⟨t, used₁, s₁, -, ht, hlink, hfree₁, hrun⟩ :=
    pagingMapPage_descent hw h hlimit habove hfree
  rw [pagePath_eq_snoc]
  exact ⟨used₁, _, hrun, hlink.mapped phys ht hf hfree₁⟩

/-- **What linking a fresh table in and storing the leaf keep, a mapping at a
free slot keeps.** -/
theorem pagingMapPage_invariant (hw : hhdm.toNat + 2 ^ 40 ≤ 2 ^ 64) {P : Machine σ → Prop}
    {size : PageSize} {virt phys flags : BitVec 64}
    (hlink : ∀ used p t i level s, MapState A hhdm pml4 limit used s → s.allocs + 1 ≤ limit →
      pageSlot hhdm s.mem pml4 p = .table t → p.length ≤ 2 → level ≠ .pt →
      pageSlot hhdm s.mem pml4 (p ++ [i]) = .empty → P s → P (linkNext A hhdm level t i s))
    (hstore : ∀ t s, Unshared (entrySlot hhdm) s.mem pml4 →
      pageSlot hhdm s.mem pml4 (tablePath size virt) = .table t →
      pageSlot hhdm s.mem pml4 (tablePath size virt ++ [leafIdx size virt]) = .empty → P s →
      P (s.storeEntry t (leafIdx size virt) (pagingCreateEntry phys flags size.level .page)))
    (h : MapState A hhdm pml4 limit used s) (hP : P s)
    (hlimit : (pagingMapPageWithoutTlbInvalidation A hhdm pml4 phys virt size flags s).2.allocs
      ≤ limit)
    (habove : ∀ q, q <+: tablePath size virt → (pageSlot hhdm s.mem pml4 q).leaf? = none)
    (hfree : pageSlot hhdm s.mem pml4 (pagePath size virt) = .empty) :
    P (pagingMapPageWithoutTlbInvalidation A hhdm pml4 phys virt size flags s).2 := by
  obtain ⟨t, used₁, s₁, hdown, ht, hlinked, hfree₁, hrun⟩ :=
    pagingMapPage_descent hw h hlimit habove hfree
  rw [allocs_pagingMapPage_eq] at hlimit
  have hroot : pageSlot hhdm s.mem pml4 [] = .table pml4 := rfl
  have hP₁ := nextTables_invariant hw hlink h hP hlimit hroot (by cases size <;> simp [pageSteps])
    (by cases size <;> simp [pageSteps]) habove
  rw [hdown] at hP₁
  rw [hrun]
  exact hstore t s₁ hlinked.state.tree ht hfree₁ hP₁
