import Joes.PagingReadBack

/-!
# Mappings that run out of pages

A mapping asks `pmm_alloc` for a page for each table that is missing on its way
(`missingTables`). Here `pmm_alloc` may hand out pages that are no tables, or give out and return
`NULL` (`FreshOrNull`). The code compares the pointer with `NULL` after the offset of the direct
map has been added, so it sees that only where the direct map starts at 0. Nothing is asked of the
tables. They may be shared, or be found at several depths.

What holds in any case is that no present entry of a page in use is written
(`pagingMapPage_kept`), since a mapping writes free entries and clears pages that it was handed
out. More is true of a mapping along a path with no leaf on it to a slot that is free
(`pagingMapPage_outcome`). With a page for each missing table it succeeds, and its leaf is found.
Otherwise it returns `PAGING_ERROR` with the tables linked in that it could get, all of them empty
(`GaveUp`). All leaves are still there, and there is a new one only if a link is read as a page:
the table it is in would have to be found at the depth of a PT, too. That cannot be if the tables
form a tree, but in tables that are shared it can (`LinksShow`).

The failure is an induction over the descent. A link at a free entry is on no path to anything
that was found before, so all leaves stay. The new table is found where the one before it is, one
index further, so whether the links behind it show is a question about the table before it, too.
-/

open PageTableEntry RadixHeap

variable {σ : Type} {A : PageAllocator σ} {hhdm : BitVec 64} {pml4 : TablePtr}
variable {s s' : Machine σ} {used : Set TablePtr}

/-! ## The tables that are missing -/

/-- How many tables are missing on the steps of a descent from a table. -/
def missingTables (hhdm : BitVec 64) (mem : TablePtr → TableIndex → PageTableEntry) :
    List (PageTableLevel × TableIndex) → TablePtr → ℕ
  | [], _ => 0
  | (_, i) :: steps, t =>
    if (mem t i).present = true then missingTables hhdm mem steps ((mem t i).tableAddress + hhdm)
    else steps.length + 1

/-- The last table that is there on the steps of a descent. -/
def lastTable (hhdm : BitVec 64) (mem : TablePtr → TableIndex → PageTableEntry) :
    List (PageTableLevel × TableIndex) → TablePtr → TablePtr
  | [], t => t
  | (_, i) :: steps, t =>
    if (mem t i).present = true then lastTable hhdm mem steps ((mem t i).tableAddress + hhdm) else t

/-- **What `pmm_alloc` may hand out** in the next `n` calls: a page below `2 ^ 40` whose pointer
is of no page in use, or a pointer that is `NULL`, after which a mapping makes no call. -/
def FreshOrNull (A : PageAllocator σ) (hhdm : BitVec 64) : ℕ → Set TablePtr → σ → Prop
  | 0, _, _ => True
  | n + 1, used, pmm =>
    let page := (A.pmmAlloc pmm).1
    IsFrame .kb4 page ∧ (page + hhdm = 0#64 ∨ page + hhdm ∉ used ∧
      FreshOrNull A hhdm n (insert (page + hhdm) used) (A.pmmAlloc pmm).2)

/-- How many of the next `n` calls of `pmm_alloc` hand out a page before the first `NULL`. -/
def pagesBeforeNull (A : PageAllocator σ) (hhdm : BitVec 64) : ℕ → σ → ℕ
  | 0, _ => 0
  | n + 1, pmm =>
    if (A.pmmAlloc pmm).1 + hhdm = 0#64 then 0
    else pagesBeforeNull A hhdm n (A.pmmAlloc pmm).2 + 1

/-- **The links show**: with so many tables linked in, one behind the other, the last one that
was there before is found with so many indices that one of the links is read as a page. -/
def LinksShow (hhdm : BitVec 64) (pml4 last : TablePtr) (links : ℕ) (s : Machine σ) : Prop :=
  ∃ q, pageSlot hhdm s.mem pml4 q = .table last ∧ 3 < q.length + links

section Zero

variable {t : TablePtr}

theorem missingTables_of_zero (h : ∀ j, s.mem t j = 0#64)
    (steps : List (PageTableLevel × TableIndex)) :
    missingTables hhdm s.mem steps t = steps.length := by
  cases steps with
  | nil => rfl
  | cons step steps => rw [missingTables, h, if_neg (by decide), List.length_cons]

theorem lastTable_of_zero (h : ∀ j, s.mem t j = 0#64)
    (steps : List (PageTableLevel × TableIndex)) : lastTable hhdm s.mem steps t = t := by
  cases steps with
  | nil => rfl
  | cons step steps => rw [lastTable, h, if_neg (by decide)]

end Zero

/-! ## A table linked in -/

section Link

variable {t : TablePtr} {i : TableIndex} {level : PageTableLevel} {q : List TableIndex}

/-- What is read on a path of tables that were there is what was, but for the new link. -/
theorem entrySlot_linkNext_of_ne
    (hnew : (A.pmmAlloc s.pmm).1 + hhdm ∉ pageTables hhdm s.mem pml4) (q : List TableIndex)
    (u : TablePtr) (hu : pageSlot hhdm s.mem pml4 q = .table u) (j : TableIndex)
    (huj : (u, j) ≠ (t, i)) :
    entrySlot hhdm q.length ((linkNext A hhdm level t i s).mem u j)
      = entrySlot hhdm q.length (s.mem u j) := by
  rw [mem_linkNext level (fun heq => hnew (heq ▸ mem_tables hu)) huj]

/-- **What was found is found**: a link at a free entry is on no path to anything. -/
theorem pageSlot_linkNext_of_found
    (hnew : (A.pmmAlloc s.pmm).1 + hhdm ∉ pageTables hhdm s.mem pml4)
    (hp : (s.mem t i).present = false) (hq : pageSlot hhdm s.mem pml4 q ≠ .empty) :
    pageSlot hhdm (linkNext A hhdm level t i s).mem pml4 q = pageSlot hhdm s.mem pml4 q :=
  slotAt_of_write_found hq (fun d => entrySlot_of_not_present hp d)
    (entrySlot_linkNext_of_ne hnew)

/-- The entry with the link. -/
theorem mem_linkNext_link : (linkNext A hhdm level t i s).mem t i
    = pagingCreateEntry ((A.pmmAlloc s.pmm).1 + hhdm - hhdm)
      (pagingFlagPresent ||| pagingFlagWritable) level .pointer :=
  Machine.mem_storeEntry_self t i _ _

/-- What names a table in a new link names the new table. -/
theorem eq_of_entrySlot_link (hframe : IsFrame .kb4 (A.pmmAlloc s.pmm).1) (hl : level ≠ .pt)
    {d : ℕ} {c : TablePtr}
    (h : entrySlot hhdm d ((linkNext A hhdm level t i s).mem t i) = .table c) :
    c = (A.pmmAlloc s.pmm).1 + hhdm := by
  rw [mem_linkNext_link] at h
  obtain ⟨hd, -⟩ := of_entrySlot_eq_table h
  rw [entrySlot_link hframe hl hd] at h
  exact (Slot.table.inj h).symm

/-- **Where there is a table now** is the new one, or there was one before. -/
theorem table_of_linkNext (hframe : IsFrame .kb4 (A.pmmAlloc s.pmm).1) (hl : level ≠ .pt)
    (hnew : (A.pmmAlloc s.pmm).1 + hhdm ∉ pageTables hhdm s.mem pml4)
    (ht : t ∈ pageTables hhdm s.mem pml4) {u : TablePtr}
    (hu : pageSlot hhdm (linkNext A hhdm level t i s).mem pml4 q = .table u) :
    u = (A.pmmAlloc s.pmm).1 + hhdm ∨ pageSlot hhdm s.mem pml4 q = .table u := by
  have hne : (A.pmmAlloc s.pmm).1 + hhdm ≠ t := fun heq => hnew (heq ▸ ht)
  refine table_or_of_write (entrySlot_linkNext_of_ne hnew)
    (fun d c hc => eq_of_entrySlot_link hframe hl hc) (fun d j => ?_) hu
  rw [mem_linkNext_self level hne]
  exact entrySlot_of_not_present present_zero d

/-- What is found one index behind a table that was there. -/
theorem pageSlot_linkNext_snoc (hframe : IsFrame .kb4 (A.pmmAlloc s.pmm).1) (hl : level ≠ .pt)
    (hnew : (A.pmmAlloc s.pmm).1 + hhdm ∉ pageTables hhdm s.mem pml4)
    (ht : t ∈ pageTables hhdm s.mem pml4) {j : TableIndex}
    (hfound : pageSlot hhdm (linkNext A hhdm level t i s).mem pml4 (q ++ [j]) ≠ .empty) :
    ∃ u, pageSlot hhdm s.mem pml4 q = .table u ∧
      pageSlot hhdm (linkNext A hhdm level t i s).mem pml4 (q ++ [j])
        = entrySlot hhdm q.length ((linkNext A hhdm level t i s).mem u j) := by
  have hne : (A.pmmAlloc s.pmm).1 + hhdm ≠ t := fun heq => hnew (heq ▸ ht)
  obtain ⟨u, hu, hread⟩ := exists_table_of_snoc hfound
  rcases table_of_linkNext hframe hl hnew ht hu with rfl | hold
  · refine absurd (hread.trans ?_) hfound
    rw [mem_linkNext_self level hne]
    exact entrySlot_of_not_present present_zero _
  · exact ⟨u, hold, hread⟩

/-- **The new table is found** one index behind the one it is linked in. -/
theorem eq_snoc_of_linkNext (hframe : IsFrame .kb4 (A.pmmAlloc s.pmm).1) (hl : level ≠ .pt)
    (hnew : (A.pmmAlloc s.pmm).1 + hhdm ∉ pageTables hhdm s.mem pml4)
    (ht : t ∈ pageTables hhdm s.mem pml4)
    (hq : pageSlot hhdm (linkNext A hhdm level t i s).mem pml4 q
      = .table ((A.pmmAlloc s.pmm).1 + hhdm)) :
    ∃ r, q = r ++ [i] ∧ pageSlot hhdm s.mem pml4 r = .table t := by
  rcases List.eq_nil_or_concat' q with rfl | ⟨r, j, rfl⟩
  · exact absurd (Slot.table.inj hq ▸ root_mem_tables) hnew
  · obtain ⟨u, hu, hread⟩ := pageSlot_linkNext_snoc hframe hl hnew ht
      (by rw [hq]; simp)
    by_cases huj : (u, j) = (t, i)
    · obtain ⟨rfl, rfl⟩ := Prod.mk.inj huj
      exact ⟨r, rfl, hu⟩
    · rw [hread, entrySlot_linkNext_of_ne hnew r u hu j huj] at hq
      exact absurd (mem_tables ((slotAt_snoc_of_table hu j).trans hq)) hnew

/-- **There is no new leaf** if the table of the link is not found as a PT. -/
theorem leaf_of_linkNext (hframe : IsFrame .kb4 (A.pmmAlloc s.pmm).1) (hl : level ≠ .pt)
    (hnew : (A.pmmAlloc s.pmm).1 + hhdm ∉ pageTables hhdm s.mem pml4)
    (ht : t ∈ pageTables hhdm s.mem pml4)
    (hdeep : ∀ q, pageSlot hhdm s.mem pml4 q = .table t → q.length ≤ 2) {e : PageTableEntry}
    (hq : pageSlot hhdm (linkNext A hhdm level t i s).mem pml4 q = .leaf e) :
    pageSlot hhdm s.mem pml4 q = .leaf e := by
  rcases List.eq_nil_or_concat' q with rfl | ⟨r, j, rfl⟩
  · cases hq
  · obtain ⟨u, hu, hread⟩ := pageSlot_linkNext_snoc hframe hl hnew ht
      (by rw [hq]; simp)
    rw [hread] at hq
    by_cases huj : (u, j) = (t, i)
    · obtain ⟨rfl, rfl⟩ := Prod.mk.inj huj
      rw [mem_linkNext_link, entrySlot_link hframe hl (hdeep r hu)] at hq
      cases hq
    · rw [entrySlot_linkNext_of_ne hnew r u hu j huj] at hq
      exact (slotAt_snoc_of_table hu j).trans hq

/-- **A link that is read in a PT** is a leaf, with the new table for its page. -/
theorem pageSlot_linkNext_leaf (hframe : IsFrame .kb4 (A.pmmAlloc s.pmm).1) (hl : level ≠ .pt)
    (hnew : (A.pmmAlloc s.pmm).1 + hhdm ∉ pageTables hhdm s.mem pml4)
    (hp : (s.mem t i).present = false) (hq : pageSlot hhdm s.mem pml4 q = .table t)
    (hlen : q.length = 3) :
    ∃ e, pageSlot hhdm (linkNext A hhdm level t i s).mem pml4 (q ++ [i]) = .leaf e ∧
      e.pageBase .kb4 = (A.pmmAlloc s.pmm).1 := by
  have hkept : pageSlot hhdm (linkNext A hhdm level t i s).mem pml4 q = .table t :=
    (pageSlot_linkNext_of_found hnew hp (by rw [hq]; simp)).trans hq
  have hpresent : (pagingCreateEntry ((A.pmmAlloc s.pmm).1 + hhdm - hhdm)
      (pagingFlagPresent ||| pagingFlagWritable) level .pointer).present = true := by
    rw [present_pagingCreateEntry]
    rfl
  refine ⟨pagingCreateEntry ((A.pmmAlloc s.pmm).1 + hhdm - hhdm)
    (pagingFlagPresent ||| pagingFlagWritable) level .pointer,
    (slotAt_snoc_of_table hkept i).trans ?_, ?_⟩
  · rw [hlen, mem_linkNext_link, entrySlot, if_pos hpresent]
  · rw [BitVec.add_sub_cancel]
    exact tableAddress_pagingCreateEntry hframe _ hl

end Link

/-! ## A descent that gives up -/

/-- Where the path of an address stops behind a table, the address is not mapped. -/
theorem leaf?_eq_none_of_stop {virt : BitVec 64} {q : List TableIndex} {i : TableIndex}
    {t : TablePtr} (ht : pageSlot hhdm s.mem pml4 q = .table t)
    (hstop : pageSlot hhdm s.mem pml4 (q ++ [i]) = .empty)
    (hpath : q ++ [i] <+: pagePath .kb4 virt) (size : PageSize) :
    (pageSlot hhdm s.mem pml4 (pagePath size virt)).leaf? = none := by
  have hsize : pagePath size virt <+: pagePath .kb4 virt := by
    cases size with
    | kb4 => exact List.prefix_rfl
    | mb2 => exact ⟨[ptIdx virt], rfl⟩
    | gb1 => exact ⟨[pdIdx virt, ptIdx virt], rfl⟩
  rcases List.prefix_or_prefix_of_prefix hsize hpath with h | ⟨r, hr⟩
  · rcases List.prefix_concat_iff.mp h with heq | ⟨r, hr⟩
    · rw [heq, hstop]
      rfl
    · -- the path of the page ends on the way to the table
      by_cases hnil : r = []
      · rw [hnil, List.append_nil] at hr
        rw [hr, ht]
        rfl
      · obtain ⟨u, hu⟩ := exists_table_of_append (p := pagePath size virt) hnil
          (by rw [hr, ← pageSlot, ht]; simp)
        rw [pageSlot, hu]
        rfl
  · rw [← hr]
    by_cases hnil : r = []
    · rw [hnil, List.append_nil, hstop]
      rfl
    · rw [pageSlot, slotAt_append_of_not_table hnil fun u hu => by cases hstop.symm.trans hu]
      rfl

/-- **A descent that gave up** on a path, with so many tables linked in behind `last`: the path
stops, the leaves are still there, and there is a new one only if the links show. -/
structure GaveUp (hhdm : BitVec 64) (pml4 last : TablePtr) (links : ℕ) (path : List TableIndex)
    (s s' : Machine σ) : Prop where
  stops : ∃ q i t, q ++ [i] <+: path ∧ pageSlot hhdm s'.mem pml4 q = .table t ∧
    pageSlot hhdm s'.mem pml4 (q ++ [i]) = .empty
  kept : ∀ q e, pageSlot hhdm s.mem pml4 q = .leaf e → pageSlot hhdm s'.mem pml4 q = .leaf e
  hidden : ¬ LinksShow hhdm pml4 last links s →
    ∀ q e, pageSlot hhdm s'.mem pml4 q = .leaf e → pageSlot hhdm s.mem pml4 q = .leaf e
  shown : LinksShow hhdm pml4 last links s →
    ∃ v, (∀ size, (pageSlot hhdm s.mem pml4 (pagePath size v)).leaf? = none) ∧
      ∃ e, pageSlot hhdm s'.mem pml4 (pagePath .kb4 v) = .leaf e ∧ e.pageBase .kb4 ≠ 0#64

/-- Without a link nothing shows. -/
theorem GaveUp.start {t : TablePtr} {p path : List TableIndex} {i : TableIndex}
    (ht : pageSlot hhdm s.mem pml4 p = .table t)
    (hempty : pageSlot hhdm s.mem pml4 (p ++ [i]) = .empty) (hpath : p ++ [i] <+: path) :
    GaveUp hhdm pml4 t 0 path s (s.afterAlloc A) where
  stops := ⟨p, i, t, hpath, ht, hempty⟩
  kept _ _ h := h
  hidden _ _ _ h := h
  shown := by
    rintro ⟨q, hq, hlt⟩
    have hlen := length_le_of_pageSlot_table hq
    omega

/-- **One link more**, in front of the others. -/
theorem GaveUp.link {t : TablePtr} {p path : List TableIndex} {i : TableIndex}
    {level : PageTableLevel} {links : ℕ} (hframe : IsFrame .kb4 (A.pmmAlloc s.pmm).1)
    (hpage : (A.pmmAlloc s.pmm).1 ≠ 0#64) (hl : level ≠ .pt)
    (hnew : (A.pmmAlloc s.pmm).1 + hhdm ∉ pageTables hhdm s.mem pml4)
    (hp : (s.mem t i).present = false) (ht : pageSlot hhdm s.mem pml4 p = .table t)
    (h : GaveUp hhdm pml4 ((A.pmmAlloc s.pmm).1 + hhdm) links path
      (linkNext A hhdm level t i s) s') :
    GaveUp hhdm pml4 t (links + 1) path s s' where
  stops := h.stops
  kept q e hq :=
    h.kept q e ((pageSlot_linkNext_of_found hnew hp (by rw [hq]; simp)).trans hq)
  hidden := by
    intro hnot q e hq
    have hdeep : ∀ q, pageSlot hhdm s.mem pml4 q = .table t → q.length ≤ 2 := by
      intro q hq
      by_contra hlen
      exact hnot ⟨q, hq, by omega⟩
    refine leaf_of_linkNext hframe hl hnew (mem_tables ht) hdeep (h.hidden ?_ q e hq)
    rintro ⟨q, hq, hlt⟩
    obtain ⟨r, rfl, hr⟩ := eq_snoc_of_linkNext hframe hl hnew (mem_tables ht) hq
    rw [List.length_append, List.length_singleton] at hlt
    exact hnot ⟨r, hr, by omega⟩
  shown := by
    rintro ⟨q, hq, hlt⟩
    have hlen := length_le_of_pageSlot_table hq
    have hempty : pageSlot hhdm s.mem pml4 (q ++ [i]) = .empty :=
      (slotAt_snoc_of_table hq i).trans (entrySlot_of_not_present hp _)
    by_cases hpt : q.length = 3
    · -- the table is found as a PT, so the new link is a page there
      obtain ⟨e, he, hbase⟩ := pageSlot_linkNext_leaf hframe hl hnew hp hq hpt
      have hlength : (q ++ [i]).length = PageSize.kb4.pathLength := by
        rw [List.length_append, hpt]
        rfl
      obtain ⟨v, -, hv⟩ := exists_pagePath_eq hlength
      refine ⟨v, leaf?_eq_none_of_stop hq hempty (by rw [hv]), e, ?_, ?_⟩
      · rw [hv]
        exact h.kept _ _ he
      · rw [hbase]
        exact hpage
    · -- the new table is found, too, one index further
      have hkept : pageSlot hhdm (linkNext A hhdm level t i s).mem pml4 q = .table t :=
        (pageSlot_linkNext_of_found hnew hp (by rw [hq]; simp)).trans hq
      have hslot : pageSlot hhdm (linkNext A hhdm level t i s).mem pml4 (q ++ [i])
          = .table ((A.pmmAlloc s.pmm).1 + hhdm) := by
        rw [pageSlot, slotAt_snoc_of_table hkept, mem_linkNext_link,
          entrySlot_link hframe hl (by omega)]
      obtain ⟨v, hnone, e, he, hbase⟩ := h.shown ⟨q ++ [i], hslot, by
        rw [List.length_append, List.length_singleton]
        omega⟩
      refine ⟨v, fun size => ?_, e, he, hbase⟩
      cases hs : pageSlot hhdm s.mem pml4 (pagePath size v) with
      | empty => rfl
      | table u => rfl
      | leaf e' =>
        have hleaf : pageSlot hhdm (linkNext A hhdm level t i s).mem pml4 (pagePath size v)
            = .leaf e' := (pageSlot_linkNext_of_found hnew hp (by rw [hs]; simp)).trans hs
        have hno := hnone size
        rw [hleaf] at hno
        cases hno

/-- Only where the direct map starts at 0 a page has the pointer `NULL`. -/
theorem hhdm_eq_zero_of_null (hw : hhdm.toNat + 2 ^ 40 ≤ 2 ^ 64) {page : BitVec 64}
    (hframe : IsFrame .kb4 page) (hnull : page + hhdm = 0#64) : hhdm = 0#64 := by
  by_cases h0 : page = 0#64
  · rwa [h0, BitVec.zero_add] at hnull
  · exact absurd hnull (add_hhdm_ne_zero hw h0 hframe)

/-- **One table further**, through a link: the new table is found, all zero, with nothing below
it, and the only one that was not in use. -/
theorem linkNext_descent {p : List TableIndex} {t : TablePtr} {i : TableIndex}
    {level : PageTableLevel} (hframe : IsFrame .kb4 (A.pmmAlloc s.pmm).1)
    (hnot : (A.pmmAlloc s.pmm).1 + hhdm ∉ used) (htables : pageTables hhdm s.mem pml4 ⊆ used)
    (ht : pageSlot hhdm s.mem pml4 p = .table t) (hd : p.length ≤ 2) (hl : level ≠ .pt)
    (hp : (s.mem t i).present = false) :
    let c := (A.pmmAlloc s.pmm).1 + hhdm
    let s₁ := linkNext A hhdm level t i s
    pageSlot hhdm s₁.mem pml4 (p ++ [i]) = .table c ∧ (∀ j, s₁.mem c j = 0#64) ∧
      (∀ q ≠ [], pageSlot hhdm s₁.mem pml4 (p ++ [i] ++ q) = .empty) ∧
      (∀ q, (pageSlot hhdm s₁.mem pml4 (p ++ [i] ++ q)).leaf? = none) ∧
      pageTables hhdm s₁.mem pml4 ⊆ insert c used := by
  intro c s₁
  have hnew : c ∉ pageTables hhdm s.mem pml4 := fun hmem => hnot (htables hmem)
  have hne : c ≠ t := fun heq => hnew (heq ▸ mem_tables ht)
  have hzero : ∀ j, s₁.mem c j = 0#64 := fun j => mem_linkNext_self level hne
  obtain ⟨hslot, hold⟩ := pageSlot_linkNext (A := A) hframe hnew ht hd hl hp
  have hbelow : ∀ q ≠ [], pageSlot hhdm s₁.mem pml4 (p ++ [i] ++ q) = .empty :=
    fun q => pageSlot_below_zero hslot hzero
  refine ⟨hslot, hzero, hbelow, fun q => ?_, fun u hu => (hold u hu).imp_right fun h => htables h⟩
  by_cases hq : q = []
  · rw [hq, List.append_nil, hslot]
    rfl
  · rw [hbelow q hq]
    rfl

/-- **What comes of a descent**, along a path with no leaf on it to a slot that is free: with a
page for each table that is missing it ends in the table of the slot, which is still free, and
otherwise it gives up. -/
theorem nextTables_outcome (hw : hhdm.toNat + 2 ^ 40 ≤ 2 ^ 64)
    {steps : List (PageTableLevel × TableIndex)} {p : List TableIndex} {t : TablePtr}
    (htables : pageTables hhdm s.mem pml4 ⊆ used)
    (hpages : FreshOrNull A hhdm (missingTables hhdm s.mem steps t) used s.pmm)
    (ht : pageSlot hhdm s.mem pml4 p = .table t) (hd : p.length + steps.length ≤ 3)
    (hl : ∀ step ∈ steps, step.1 ≠ .pt)
    (hleaf : ∀ q, q <+: steps.map Prod.snd → (pageSlot hhdm s.mem pml4 (p ++ q)).leaf? = none)
    {k : TableIndex} (hfree : pageSlot hhdm s.mem pml4 (p ++ steps.map Prod.snd ++ [k]) = .empty) :
    let n := missingTables hhdm s.mem steps t
    (pagesBeforeNull A hhdm n s.pmm = n ∧ ∃ c s', nextTables A hhdm steps t s = (some c, s') ∧
        pageSlot hhdm s'.mem pml4 (p ++ steps.map Prod.snd) = .table c ∧
        (s'.mem c k).present = false) ∨
      (pagesBeforeNull A hhdm n s.pmm < n ∧ hhdm = 0#64 ∧
        ∃ s', nextTables A hhdm steps t s = (none, s') ∧
          GaveUp hhdm pml4 (lastTable hhdm s.mem steps t) (pagesBeforeNull A hhdm n s.pmm)
            (p ++ steps.map Prod.snd) s s') := by
  intro n
  induction steps generalizing p t s used with
  | nil =>
    rw [List.map_nil, List.append_nil] at hfree ⊢
    exact .inl ⟨rfl, t, s, rfl, ht, not_present_of_pageSlot_empty (by simpa using hd) ht hfree⟩
  | cons step steps ih =>
    obtain ⟨level, i⟩ := step
    rw [List.length_cons] at hd
    have hl₁ : level ≠ .pt := hl (level, i) List.mem_cons_self
    have hl' : ∀ step ∈ steps, step.1 ≠ .pt :=
      fun step hmem => hl step (List.mem_cons_of_mem _ hmem)
    have hd' : (p ++ [i]).length + steps.length ≤ 3 := by
      rw [List.length_append, List.length_singleton]
      omega
    have happ : p ++ ((level, i) :: steps).map Prod.snd = p ++ [i] ++ steps.map Prod.snd := by
      rw [List.map_cons, List.append_assoc, List.singleton_append]
    rw [happ] at hfree ⊢
    rcases pageSlot_snoc_cases (by omega) ht i with ⟨hemp, hp⟩ | ⟨-, hc, hpr, -⟩ | ⟨-, he, -⟩
    · have hpr : ¬ (s.mem t i).present = true := by rw [hp]; decide
      have hn : n = steps.length + 1 := if_neg hpr
      have hlast : lastTable hhdm s.mem ((level, i) :: steps) t = t := if_neg hpr
      rw [show missingTables hhdm s.mem ((level, i) :: steps) t = steps.length + 1 from hn]
        at hpages
      rw [hn, hlast]
      obtain ⟨hframe, hrest⟩ := hpages
      by_cases hnull : (A.pmmAlloc s.pmm).1 + hhdm = 0#64
      · -- there is no page for this table
        refine .inr ⟨?_, hhdm_eq_zero_of_null hw hframe hnull, s.afterAlloc A, ?_, ?_⟩
        · rw [pagesBeforeNull, if_pos hnull]
          exact Nat.succ_pos _
        · simp only [nextTables, nextTable, hp, if_true, if_pos hnull]
        · rw [pagesBeforeNull, if_pos hnull]
          exact .start ht hemp (List.prefix_append _ _)
      · -- a page is linked in, and behind it all tables are missing
        obtain ⟨hnot, hrest⟩ := hrest.resolve_left hnull
        have hnew : (A.pmmAlloc s.pmm).1 + hhdm ∉ pageTables hhdm s.mem pml4 :=
          fun hmem => hnot (htables hmem)
        obtain ⟨hslot, hzero, hbelow, hleaf', htables'⟩ :=
          linkNext_descent hframe hnot htables ht (by omega) hl₁ hp
        have hmissing : missingTables hhdm (linkNext A hhdm level t i s).mem steps
            ((A.pmmAlloc s.pmm).1 + hhdm) = steps.length := missingTables_of_zero hzero steps
        have hstep : nextTables A hhdm ((level, i) :: steps) t s = nextTables A hhdm steps
            ((A.pmmAlloc s.pmm).1 + hhdm) (linkNext A hhdm level t i s) := by
          rw [nextTables, nextTable_of_free level hp hnull]
        have hrest' := ih htables' (by rw [hmissing]; exact hrest) hslot hd' hl'
          (fun q _ => hleaf' q)
          (by rw [List.append_assoc]; exact hbelow _ (by simp))
        rw [hmissing, lastTable_of_zero hzero] at hrest'
        rw [pagesBeforeNull, if_neg hnull, hstep]
        rcases hrest' with ⟨hall, hdone⟩ | ⟨hfew, hhdm0, s', hrun, hgave⟩
        · exact .inl ⟨congrArg (· + 1) hall, hdone⟩
        · have hpage : (A.pmmAlloc s.pmm).1 ≠ 0#64 := by
            intro h0
            rw [h0, hhdm0] at hnull
            exact hnull rfl
          exact .inr ⟨Nat.succ_lt_succ hfew, hhdm0, s', hrun,
            hgave.link hframe hpage hl₁ hnew hp ht⟩
    · -- the table is there
      have hn : n = missingTables hhdm s.mem steps ((s.mem t i).tableAddress + hhdm) := if_pos hpr
      have hlast : lastTable hhdm s.mem ((level, i) :: steps) t
          = lastTable hhdm s.mem steps ((s.mem t i).tableAddress + hhdm) := if_pos hpr
      rw [show missingTables hhdm s.mem ((level, i) :: steps) t = _ from hn] at hpages
      rw [hn, hlast, nextTables, nextTable_of_table (A := A) level ht hc]
      refine ih htables hpages hc hd' hl' (fun q hq => ?_) hfree
      have := hleaf (i :: q) (List.cons_prefix_cons.mpr ⟨rfl, hq⟩)
      rwa [← List.singleton_append, ← List.append_assoc] at this
    · have hstep : (pageSlot hhdm s.mem pml4 (p ++ [i])).leaf? = none :=
        hleaf [i] ⟨steps.map Prod.snd, rfl⟩
      rw [he] at hstep
      cases hstep

/-- The last table that is there is found at the end of its part of the path. -/
theorem exists_lastTable {steps : List (PageTableLevel × TableIndex)} {p : List TableIndex}
    {t : TablePtr} (ht : pageSlot hhdm s.mem pml4 p = .table t)
    (hd : p.length + steps.length ≤ 3)
    (hleaf : ∀ q, q <+: steps.map Prod.snd → (pageSlot hhdm s.mem pml4 (p ++ q)).leaf? = none) :
    ∃ q, pageSlot hhdm s.mem pml4 q = .table (lastTable hhdm s.mem steps t) ∧
      q.length + missingTables hhdm s.mem steps t = p.length + steps.length := by
  induction steps generalizing p t with
  | nil => exact ⟨p, ht, rfl⟩
  | cons step steps ih =>
    obtain ⟨level, i⟩ := step
    rw [List.length_cons] at hd ⊢
    rcases pageSlot_snoc_cases (by omega) ht i with ⟨-, hp⟩ | ⟨-, hc, hp, -⟩ | ⟨-, he, -⟩
    · rw [lastTable, missingTables, if_neg (by rw [hp]; decide), if_neg (by rw [hp]; decide)]
      exact ⟨p, ht, rfl⟩
    · rw [lastTable, missingTables, if_pos hp, if_pos hp]
      obtain ⟨q, hq, hlen⟩ := ih hc
        (by rw [List.length_append, List.length_singleton]; omega) fun q hq => by
          have := hleaf (i :: q) (List.cons_prefix_cons.mpr ⟨rfl, hq⟩)
          rwa [← List.singleton_append, ← List.append_assoc] at this
      rw [List.length_append, List.length_singleton] at hlen
      exact ⟨q, hq, by omega⟩
    · have hstep : (pageSlot hhdm s.mem pml4 (p ++ [i])).leaf? = none :=
        hleaf [i] ⟨steps.map Prod.snd, rfl⟩
      rw [he] at hstep
      cases hstep

/-- **In a tree no link shows.** -/
theorem not_linksShow {steps : List (PageTableLevel × TableIndex)} {links : ℕ}
    (htree : Unshared (entrySlot hhdm) s.mem pml4) (hd : steps.length ≤ 3)
    (hleaf : ∀ q, q <+: steps.map Prod.snd → (pageSlot hhdm s.mem pml4 q).leaf? = none)
    (hlinks : links ≤ missingTables hhdm s.mem steps pml4) :
    ¬ LinksShow hhdm pml4 (lastTable hhdm s.mem steps pml4) links s := by
  rintro ⟨q, hq, hlt⟩
  have hroot : pageSlot hhdm s.mem pml4 [] = .table pml4 := rfl
  have hlast : ∃ q', pageSlot hhdm s.mem pml4 q' = .table (lastTable hhdm s.mem steps pml4) ∧
      q'.length + missingTables hhdm s.mem steps pml4 = ([] : List TableIndex).length
        + steps.length := exists_lastTable hroot (by simpa using hd) hleaf
  obtain ⟨q', hq', hlen⟩ := hlast
  obtain rfl := htree q q' _ hq hq'
  rw [List.length_nil, Nat.zero_add] at hlen
  omega

/-! ## A mapping -/

/-- A descent misses no more tables than it has steps. -/
theorem missingTables_le (steps : List (PageTableLevel × TableIndex)) (t : TablePtr) :
    missingTables hhdm s.mem steps t ≤ steps.length := by
  induction steps generalizing t with
  | nil => exact le_rfl
  | cons step steps ih =>
    obtain ⟨level, i⟩ := step
    rw [missingTables, List.length_cons]
    by_cases hp : (s.mem t i).present = true
    · rw [if_pos hp]
      exact (ih _).trans (Nat.le_succ _)
    · rw [if_neg hp]

/-- **A descent keeps what is in use**: it writes free entries, and clears pages that are not in
use. Whether it comes through tables or through anything else does not matter. -/
theorem nextTables_kept {steps : List (PageTableLevel × TableIndex)} {t u : TablePtr}
    {i : TableIndex} {n : ℕ} (hpages : FreshOrNull A hhdm n used s.pmm)
    (hn : missingTables hhdm s.mem steps t ≤ n) (hu : u ∈ used)
    (hp : (s.mem u i).present = true) :
    (nextTables A hhdm steps t s).2.mem u i = s.mem u i := by
  induction steps generalizing t s used n with
  | nil => rfl
  | cons step steps ih =>
    obtain ⟨level, k⟩ := step
    rw [missingTables] at hn
    by_cases hpr : (s.mem t k).present = true
    · rw [if_pos hpr] at hn
      rw [nextTables, nextTable_of_present level hpr]
      exact ih hpages hn hu hp
    · rw [if_neg hpr] at hn
      have hfree : (s.mem t k).present = false := by simpa using hpr
      obtain ⟨n, rfl⟩ : ∃ m, n = m + 1 := ⟨n - 1, by omega⟩
      obtain ⟨-, hrest⟩ := hpages
      by_cases hnull : (A.pmmAlloc s.pmm).1 + hhdm = 0#64
      · simp only [nextTables, nextTable, hfree, if_true, if_pos hnull, Machine.mem_afterAlloc]
      · obtain ⟨hnew, hrest⟩ := hrest.resolve_left hnull
        have hsame : (linkNext A hhdm level t k s).mem u i = s.mem u i := by
          refine mem_linkNext level (fun heq => hnew (heq ▸ hu)) fun huk => hpr ?_
          obtain ⟨rfl, rfl⟩ := Prod.mk.inj huk
          exact hp
        rw [nextTables, nextTable_of_free level hfree hnull]
        dsimp only
        rw [ih hrest ((missingTables_le steps _).trans (by omega)) (Set.mem_insert_of_mem _ hu)
          (by rw [hsame, hp]), hsame]

/-- **A mapping keeps what is in use**, whatever is on its way. -/
theorem pagingMapPage_kept {phys virt flags : BitVec 64} {size : PageSize} {u : TablePtr}
    {i : TableIndex} (hpages : FreshOrNull A hhdm
      (missingTables hhdm s.mem (pageSteps size virt) pml4) used s.pmm)
    (hu : u ∈ used) (hp : (s.mem u i).present = true) :
    (pagingMapPageWithoutTlbInvalidation A hhdm pml4 phys virt size flags s).2.mem u i
      = s.mem u i := by
  have hkept := nextTables_kept hpages le_rfl hu hp
  rw [pagingMapPage_eq_nextTables]
  rcases hdown : nextTables A hhdm (pageSteps size virt) pml4 s with ⟨_ | c, s₁⟩
  · rw [hdown] at hkept
    exact hkept
  · rw [hdown] at hkept
    dsimp only at hkept ⊢
    unfold mapLeaf
    by_cases hc : (s₁.mem c (leafIdx size virt)).present = true
    · rw [if_pos hc]
      exact hkept
    · rw [if_neg hc, Machine.mem_storeEntry_of_ne fun hui => hc ?_]
      · exact hkept
      · obtain ⟨rfl, rfl⟩ := Prod.mk.inj hui
        rw [hkept, hp]

/-- Where a descent gave up, there is nothing behind its path. -/
theorem GaveUp.empty {last : TablePtr} {links : ℕ} {path p : List TableIndex}
    (h : GaveUp hhdm pml4 last links path s s') (hp : path <+: p) :
    pageSlot hhdm s'.mem pml4 p = .empty := by
  obtain ⟨q, i, t, hq, -, hstop⟩ := h.stops
  obtain ⟨r, rfl⟩ := hq.trans hp
  by_cases hnil : r = []
  · rwa [hnil, List.append_nil]
  · exact slotAt_append_of_not_table hnil fun u hu => by cases hstop.symm.trans hu

/-- **What comes of a mapping** to a free slot with no leaf above it: with a page for each missing
table its leaf is found, and otherwise it returns `PAGING_ERROR` where it gave up. -/
theorem pagingMapPage_outcome (hw : hhdm.toNat + 2 ^ 40 ≤ 2 ^ 64) {phys virt flags : BitVec 64}
    {size : PageSize} (htables : pageTables hhdm s.mem pml4 ⊆ used)
    (hpages : FreshOrNull A hhdm (missingTables hhdm s.mem (pageSteps size virt) pml4) used s.pmm)
    (hflags : LeafFlags size flags)
    (habove : ∀ q, q <+: tablePath size virt → (pageSlot hhdm s.mem pml4 q).leaf? = none)
    (hfree : pageSlot hhdm s.mem pml4 (pagePath size virt) = .empty) :
    let n := missingTables hhdm s.mem (pageSteps size virt) pml4
    (pagesBeforeNull A hhdm n s.pmm = n ∧ ∃ s',
        pagingMapPageWithoutTlbInvalidation A hhdm pml4 phys virt size flags s = (.ok, s') ∧
        pageSlot hhdm s'.mem pml4 (pagePath size virt)
          = .leaf (pagingCreateEntry phys flags size.level .page)) ∨
      (pagesBeforeNull A hhdm n s.pmm < n ∧ hhdm = 0#64 ∧ ∃ s',
        pagingMapPageWithoutTlbInvalidation A hhdm pml4 phys virt size flags s = (.error, s') ∧
        GaveUp hhdm pml4 (lastTable hhdm s.mem (pageSteps size virt) pml4)
          (pagesBeforeNull A hhdm n s.pmm) (tablePath size virt) s s') := by
  intro n
  have hroot : pageSlot hhdm s.mem pml4 [] = .table pml4 := rfl
  have hlen : (pageSteps size virt).length ≤ 3 := by cases size <;> simp [pageSteps]
  have hlevels : ∀ step ∈ pageSteps size virt, step.1 ≠ .pt := by
    cases size <;> simp [pageSteps]
  rw [pagePath_eq_snoc] at hfree
  have hrun := @pagingMapPage_eq_nextTables σ A hhdm pml4 phys virt size flags s
  rcases nextTables_outcome (p := []) hw htables hpages hroot (by simpa using hlen) hlevels habove
    hfree with ⟨hall, c, s₁, hdown, ht, hpc⟩ | ⟨hfew, hhdm0, s₁, hdown, hgave⟩
  · -- the leaf is stored, and found
    rw [hdown] at hrun
    replace ht : pageSlot hhdm s₁.mem pml4 (tablePath size virt) = .table c := ht
    have hkept : pageSlot hhdm (s₁.storeEntry c (leafIdx size virt)
        (pagingCreateEntry phys flags size.level .page)).mem pml4 (tablePath size virt)
        = .table c :=
      slotAt_of_write_free ht (fun d => entrySlot_of_not_present hpc d) fun q u _ j huj => by
        rw [Machine.mem_storeEntry_of_ne huj]
    refine .inl ⟨hall, s₁.storeEntry c (leafIdx size virt)
      (pagingCreateEntry phys flags size.level .page), ?_, ?_⟩
    · rw [hrun]
      simp only [mapLeaf, hpc, Bool.false_eq_true, if_false]
    · rw [pagePath_eq_snoc, pageSlot, slotAt_snoc_of_table hkept, Machine.mem_storeEntry_self,
        entrySlot_leaf hflags phys virt]
  · rw [hdown] at hrun
    exact .inr ⟨hfew, hhdm0, s₁, hrun, hgave⟩

/-! ## In a tree -/

/-- **The tree has grown**, but for the path `p` by tables only: it is a tree still, no page in use
has become a table, those that are no tables are unchanged, and the leaves of other paths were
there. -/
structure Grown (hhdm : BitVec 64) (pml4 : TablePtr) (p : List TableIndex) (used : Set TablePtr)
    (s s' : Machine σ) : Prop where
  tree : Unshared (entrySlot hhdm) s'.mem pml4
  tables : ∀ u ∈ used, u ∈ pageTables hhdm s'.mem pml4 → u ∈ pageTables hhdm s.mem pml4
  frame : ∀ u ∈ used, u ∉ pageTables hhdm s.mem pml4 → s'.mem u = s.mem u
  leaf : ∀ q ≠ p, ∀ e, pageSlot hhdm s'.mem pml4 q = .leaf e → pageSlot hhdm s.mem pml4 q = .leaf e

namespace Grown

variable {p : List TableIndex} {s₁ s₂ : Machine σ}

/-- Nothing has been written. -/
theorem of_mem_eq (htree : Unshared (entrySlot hhdm) s.mem pml4) (h : s'.mem = s.mem) :
    Grown hhdm pml4 p used s s' := by
  refine ⟨?_, ?_, ?_, ?_⟩ <;> rw [h]
  · exact htree
  · exact fun _ _ hu => hu
  · exact fun _ _ _ => rfl
  · exact fun _ _ _ he => he

theorem trans (h₁ : Grown hhdm pml4 p used s s₁) (h₂ : Grown hhdm pml4 p used s₁ s₂) :
    Grown hhdm pml4 p used s s₂ where
  tree := h₂.tree
  tables u hu hmem := h₁.tables u hu (h₂.tables u hu hmem)
  frame u hu hmem := by
    rw [h₂.frame u hu fun hmem' => hmem (h₁.tables u hu hmem'), h₁.frame u hu hmem]
  leaf q hq e he := h₁.leaf q hq e (h₂.leaf q hq e he)

/-- Of fewer pages less is said. -/
theorem anti {used' : Set TablePtr} (hsub : used ⊆ used') (h : Grown hhdm pml4 p used' s s') :
    Grown hhdm pml4 p used s s' :=
  ⟨h.tree, fun u hu => h.tables u (hsub hu), fun u hu => h.frame u (hsub hu), h.leaf⟩

/-- **One slot has changed**: there is a table at it that was not in use, or it is the one at
`p`. -/
theorem of_update (htree : Unshared (entrySlot hhdm) s.mem pml4) {r : List TableIndex}
    {x : Slot TablePtr PageTableEntry}
    (hslots : slotAt (entrySlot hhdm) s'.mem pml4
      = Function.update (slotAt (entrySlot hhdm) s.mem pml4) r x)
    (hx : (∃ c, x = .table c) ∨ r = p)
    (hfresh : ∀ c, x = .table c → c ∉ pageTables hhdm s.mem pml4 ∧ c ∉ used)
    (hframe : ∀ u ∈ used, u ∉ pageTables hhdm s.mem pml4 → s'.mem u = s.mem u) :
    Grown hhdm pml4 p used s s' where
  tree := htree.update hslots fun c hc => (hfresh c hc).1
  tables u hu hmem :=
    (mem_tables_of_update hslots hmem).resolve_right fun hc => (hfresh u hc).2 hu
  frame := hframe
  leaf q hq e he := by
    rw [pageSlot, hslots] at he
    by_cases hqr : q = r
    · rw [hqr, Function.update_self] at he
      rcases hx with ⟨c, hc⟩ | hrp
      · cases hc.symm.trans he
      · exact absurd (hqr.trans hrp) hq
    · rwa [Function.update_of_ne hqr] at he

end Grown

/-- **A descent makes a tree grow**, also if it runs out of pages. -/
theorem nextTables_grown {steps : List (PageTableLevel × TableIndex)} {p r : List TableIndex}
    {t : TablePtr} {n : ℕ} (htree : Unshared (entrySlot hhdm) s.mem pml4)
    (htables : pageTables hhdm s.mem pml4 ⊆ used) (hpages : FreshOrNull A hhdm n used s.pmm)
    (hn : missingTables hhdm s.mem steps t ≤ n) (ht : pageSlot hhdm s.mem pml4 r = .table t)
    (hd : r.length + steps.length ≤ 3) (hl : ∀ step ∈ steps, step.1 ≠ .pt)
    (hleaf : ∀ q, q <+: steps.map Prod.snd → (pageSlot hhdm s.mem pml4 (r ++ q)).leaf? = none) :
    Grown hhdm pml4 p used s (nextTables A hhdm steps t s).2 ∧
      ∀ c, (nextTables A hhdm steps t s).1 = some c →
        pageSlot hhdm (nextTables A hhdm steps t s).2.mem pml4 (r ++ steps.map Prod.snd)
          = .table c := by
  induction steps generalizing r t s used n with
  | nil =>
    refine ⟨.of_mem_eq htree rfl, fun c hc => ?_⟩
    obtain rfl := Option.some.inj hc
    rwa [List.map_nil, List.append_nil]
  | cons step steps ih =>
    obtain ⟨level, i⟩ := step
    rw [List.length_cons] at hd
    have hl₁ : level ≠ .pt := hl (level, i) List.mem_cons_self
    have hl' : ∀ step ∈ steps, step.1 ≠ .pt :=
      fun step hmem => hl step (List.mem_cons_of_mem _ hmem)
    have hd' : (r ++ [i]).length + steps.length ≤ 3 := by
      rw [List.length_append, List.length_singleton]
      omega
    have happ : r ++ ((level, i) :: steps).map Prod.snd = r ++ [i] ++ steps.map Prod.snd := by
      rw [List.map_cons, List.append_assoc, List.singleton_append]
    rw [happ]
    rw [missingTables] at hn
    rcases pageSlot_snoc_cases (by omega) ht i with ⟨hemp, hp⟩ | ⟨-, hc, hp, -⟩ | ⟨-, he, -⟩
    · rw [if_neg (by rw [hp]; decide)] at hn
      obtain ⟨n, rfl⟩ : ∃ m, n = m + 1 := ⟨n - 1, by omega⟩
      obtain ⟨hframe, hrest⟩ := hpages
      by_cases hnull : (A.pmmAlloc s.pmm).1 + hhdm = 0#64
      · have hrun : nextTables A hhdm ((level, i) :: steps) t s = (none, s.afterAlloc A) := by
          simp only [nextTables, nextTable, hp, if_true, if_pos hnull]
        rw [hrun]
        exact ⟨.of_mem_eq htree rfl, fun c hc => by cases hc⟩
      · obtain ⟨hnot, hrest⟩ := hrest.resolve_left hnull
        have hnew : (A.pmmAlloc s.pmm).1 + hhdm ∉ pageTables hhdm s.mem pml4 :=
          fun hmem => hnot (htables hmem)
        have hslots := slotAt_linkNext htree hframe hnew ht (by omega) hl₁ hemp
        have hgrown : Grown hhdm pml4 p used s (linkNext A hhdm level t i s) := by
          refine .of_update htree hslots (.inl ⟨_, rfl⟩) (fun c hc => ?_) fun u hu hmem => ?_
          · obtain rfl := Slot.table.inj hc
            exact ⟨hnew, hnot⟩
          · funext j
            refine mem_linkNext level (fun heq => hnot (heq ▸ hu)) fun huj => hmem ?_
            rw [(Prod.mk.inj huj).1]
            exact mem_tables ht
        obtain ⟨hslot, -, -, hleaf', htables'⟩ :=
          linkNext_descent hframe hnot htables ht (by omega) hl₁ hp
        have hstep : nextTables A hhdm ((level, i) :: steps) t s = nextTables A hhdm steps
            ((A.pmmAlloc s.pmm).1 + hhdm) (linkNext A hhdm level t i s) := by
          rw [nextTables, nextTable_of_free level hp hnull]
        obtain ⟨hrest, hfound⟩ := ih hgrown.tree htables' hrest
          ((missingTables_le steps _).trans (by omega)) hslot hd' hl' fun q _ => hleaf' q
        rw [hstep]
        exact ⟨hgrown.trans (hrest.anti (Set.subset_insert _ _)), hfound⟩
    · rw [if_pos hp] at hn
      rw [nextTables, nextTable_of_table (A := A) level ht hc]
      refine ih htree htables hpages hn hc hd' hl' fun q hq => ?_
      have := hleaf (i :: q) (List.cons_prefix_cons.mpr ⟨rfl, hq⟩)
      rwa [← List.singleton_append, ← List.append_assoc] at this
    · have hstep : (pageSlot hhdm s.mem pml4 (r ++ [i])).leaf? = none :=
        hleaf [i] ⟨steps.map Prod.snd, rfl⟩
      rw [he] at hstep
      cases hstep

/-- **A mapping makes a tree grow**, at the path of its page and by tables, also if it runs out of
pages. -/
theorem pagingMapPage_grown {phys virt flags : BitVec 64} {size : PageSize}
    (htree : Unshared (entrySlot hhdm) s.mem pml4) (htables : pageTables hhdm s.mem pml4 ⊆ used)
    (hpages : FreshOrNull A hhdm (missingTables hhdm s.mem (pageSteps size virt) pml4) used s.pmm)
    (hflags : LeafFlags size flags)
    (habove : ∀ q, q <+: tablePath size virt → (pageSlot hhdm s.mem pml4 q).leaf? = none) :
    Grown hhdm pml4 (pagePath size virt) used s
      (pagingMapPageWithoutTlbInvalidation A hhdm pml4 phys virt size flags s).2 := by
  have hroot : pageSlot hhdm s.mem pml4 [] = .table pml4 := rfl
  obtain ⟨hgrown, hfound⟩ := nextTables_grown (p := pagePath size virt) htree htables hpages le_rfl
    hroot (by cases size <;> simp [pageSteps]) (by cases size <;> simp [pageSteps]) habove
  rw [pagingMapPage_eq_nextTables]
  rcases hdown : nextTables A hhdm (pageSteps size virt) pml4 s with ⟨_ | c, s₁⟩
  · rw [hdown] at hgrown
    exact hgrown
  · rw [hdown] at hgrown hfound
    replace hfound : pageSlot hhdm s₁.mem pml4 (tablePath size virt) = .table c := hfound c rfl
    dsimp only at hgrown ⊢
    unfold mapLeaf
    by_cases hp : (s₁.mem c (leafIdx size virt)).present = true
    · rw [if_pos hp]
      exact hgrown
    · have hfree : pageSlot hhdm s₁.mem pml4 (tablePath size virt ++ [leafIdx size virt])
          = .empty :=
        (slotAt_snoc_of_table hfound _).trans (entrySlot_of_not_present (by simpa using hp) _)
      rw [if_neg hp]
      refine hgrown.trans (.of_update hgrown.tree
        (slotAt_storeLeaf phys hgrown.tree hfound hflags hfree) (.inr (pagePath_eq_snoc _ _).symm)
        (fun c hc => by cases hc) fun u _ hmem => ?_)
      have hne : u ≠ c := by
        rintro rfl
        exact hmem (mem_tables hfound)
      exact Machine.mem_storeEntry_of_ne_table hne _ _ _
