import Joes.PagingClone
import Joes.PagingConfusion

/-!
# The clone as a copy

Into an all-zero PML4, `paging_clone_page_table` copies the address space: the
same leaf words under the same paths, no others, the same resolved addresses,
and the old tables untouched (`pagingClonePageTable_copies`).

All of it is read off `Copied`. A target that held nothing has no slot that is
what it was, but for the empty ones, so each of its leaves is one of the old
tree. Each leaf of the old tree is there, since its slot does not stay free.
Trees with the same leaves resolve alike, because an address resolves to the
base of the one leaf above it, or to 0 (`pagingResolveVirtualAddress_congr`).
That the old tables are untouched is part of the invariant of the copying.
-/

open PageTableEntry RadixHeap

variable {σ : Type} {A : PageAllocator σ} {hhdm : BitVec 64} {old new : TablePtr}
variable {s s' : Machine σ} {limit : ℕ}

/-- The target of a clone: `*new_pml4`, or a page from `pmm_alloc` if that is
`NULL`. -/
def cloneRoot (A : PageAllocator σ) (hhdm : BitVec 64) (new : TablePtr) (s : Machine σ) :
    TablePtr :=
  if new = 0#64 then (A.pmmAlloc s.pmm).1 + hhdm else new

/-- The state the copying starts in. -/
def cloneStart (A : PageAllocator σ) (new : TablePtr) (s : Machine σ) : Machine σ :=
  if new = 0#64 then s.afterAlloc A else s

/-- **A clone is the choice of its target and the loop.** -/
theorem pagingClonePageTable_eq (old new : TablePtr) (cs : CloneState σ) :
    pagingClonePageTable A hhdm old new .pml4 cs
      = if cloneRoot A hhdm new cs.machine = 0#64 then
          (.error, cloneRoot A hhdm new cs.machine,
            { cs with machine := cloneStart A new cs.machine })
        else
          (.ok, cloneRoot A hhdm new cs.machine,
            clonePml4 A hhdm (cloneRoot A hhdm new cs.machine) old
              { cs with machine := cloneStart A new cs.machine }) := by
  unfold pagingClonePageTable cloneRoot cloneStart
  by_cases hnew : new = 0#64
  · simp only [if_pos hnew]
  · simp only [if_neg hnew]

@[simp] theorem mem_cloneStart (new : TablePtr) (s : Machine σ) :
    (cloneStart A new s).mem = s.mem := by
  unfold cloneStart
  by_cases hnew : new = 0#64 <;> simp [hnew]

/-- The invariant of a clone holds at its start. -/
theorem copyState_start (htree : Unshared (entrySlot hhdm) s.mem new)
    (hapart : ∀ t ∈ pageTables hhdm s.mem old, t ∉ pageTables hhdm s.mem new)
    (hclear : ∀ p q e, pageSlot hhdm s.mem old p = .leaf e → q <+: p → q ≠ p →
      (pageSlot hhdm s.mem new q).leaf? = none)
    (hfresh : FreshPages A hhdm (limit - s.allocs)
      (pageTables hhdm s.mem new ∪ pageTables hhdm s.mem old) s.pmm) :
    CopyState A hhdm old new s limit s :=
  ⟨_, ⟨htree, Set.subset_union_left, hfresh⟩, Set.subset_union_right, hapart, fun _ _ => rfl,
    hclear⟩

/-- It holds for a target without present entries that is none of the old
tables. -/
theorem copyState_start_of_empty (hroot : ∀ i, entrySlot hhdm 0 (s.mem new i) = .empty)
    (hapart : new ∉ pageTables hhdm s.mem old)
    (hfresh : FreshPages A hhdm (limit - s.allocs) (insert new (pageTables hhdm s.mem old))
      s.pmm) : CopyState A hhdm old new s limit s := by
  have htables : pageTables hhdm s.mem new = {new} := tables_eq_root_of_empty hroot
  refine copyState_start (unshared_of_root_empty hroot) (fun t ht hmem => ?_)
    (fun _ q _ _ _ _ => leaf?_eq_none_of_root hroot q) ?_
  · rw [htables] at hmem
    exact hapart (hmem ▸ ht)
  · rw [htables, Set.singleton_union]
    exact hfresh

/-! ## Into an all-zero PML4 -/

/-- Trees with the same leaves resolve alike. -/
theorem pagingResolveVirtualAddress_congr
    (h : ∀ q, (pageSlot hhdm s'.mem new q).leaf? = (pageSlot hhdm s.mem old q).leaf?)
    (v : BitVec 64) :
    pagingResolveVirtualAddress hhdm new v s' = pagingResolveVirtualAddress hhdm old v s := by
  by_cases hleaf : ∃ size e, pageSlot hhdm s.mem old (pagePath size v) = .leaf e
  · obtain ⟨size, e, he⟩ := hleaf
    have he' : pageSlot hhdm s'.mem new (pagePath size v) = .leaf e :=
      Slot.leaf?_eq_some.mp (by rw [h, he]; rfl)
    rw [pagingResolveVirtualAddress_of_leaf he, pagingResolveVirtualAddress_of_leaf he']
  · have hnone : ∀ size, (pageSlot hhdm s.mem old (pagePath size v)).leaf? = none := by
      intro size
      by_contra hne
      obtain ⟨e, he⟩ := Option.ne_none_iff_exists'.mp hne
      exact hleaf ⟨size, e, Slot.leaf?_eq_some.mp he⟩
    rw [pagingResolveVirtualAddress_of_no_leaf hnone,
      pagingResolveVirtualAddress_of_no_leaf fun size => (h _).trans (hnone size)]

/-- A copy into a target that held nothing has the leaves of the old tree. -/
theorem Copied.leaf_iff (h : Copied hhdm old new s s s')
    (hfilled : ∀ q e, pageSlot hhdm s.mem old q = .leaf e → pageSlot hhdm s'.mem new q ≠ .empty)
    (hempty : ∀ q, q ≠ [] → pageSlot hhdm s.mem new q = .empty) (q : List TableIndex)
    (e : PageTableEntry) :
    pageSlot hhdm s'.mem new q = .leaf e ↔ pageSlot hhdm s.mem old q = .leaf e := by
  have hnil : ∀ (root : TablePtr) (z : Machine σ) e, pageSlot hhdm z.mem root q = .leaf e →
      q ≠ [] := by
    rintro root z e he rfl
    cases he
  constructor
  · intro he
    have hemp := hempty q (hnil _ _ e he)
    rcases h q with hsame | ⟨-, ⟨e', hO, he'⟩ | ⟨t, c, -, hc⟩⟩
    · rw [hsame, hemp] at he
      cases he
    · rwa [← Slot.leaf.inj (he'.symm.trans he)]
    · cases hc.symm.trans he
  · intro hO
    have hemp := hempty q (hnil _ _ e hO)
    rcases h q with hsame | ⟨-, ⟨e', hO', he'⟩ | ⟨t, c, hO', -⟩⟩
    · exact absurd (hsame.trans hemp) (hfilled q e hO)
    · rwa [Slot.leaf.inj (hO.symm.trans hO')]
    · cases hO.symm.trans hO'

/-- **Cloning preserves the address space.** Into an all-zero PML4 that is none
of the old tables, with fresh pages from `pmm_alloc`: the clone has the leaf
words of the old table under the same paths and no others, every address
resolves alike, and no old table was modified. -/
theorem pagingClonePageTable_copies (hw : hhdm.toNat + 2 ^ 40 ≤ 2 ^ 64) {cs : CloneState σ}
    (hnew : new ≠ 0#64) (hzero : ∀ i, cs.machine.mem new i = 0#64)
    (hapart : new ∉ pageTables hhdm cs.machine.mem old)
    (hfresh : FreshBetween A hhdm (insert new (pageTables hhdm cs.machine.mem old)) cs.machine
      (pagingClonePageTable A hhdm old new .pml4 cs).2.2.machine) :
    let result := (pagingClonePageTable A hhdm old new .pml4 cs).2.2.machine
    (pagingClonePageTable A hhdm old new .pml4 cs).2.1 = new
      ∧ (∀ q e, pageSlot hhdm result.mem new q = .leaf e
          ↔ pageSlot hhdm cs.machine.mem old q = .leaf e)
      ∧ (∀ v, pagingResolveVirtualAddress hhdm new v result
          = pagingResolveVirtualAddress hhdm old v cs.machine)
      ∧ ∀ t ∈ pageTables hhdm cs.machine.mem old, result.mem t = cs.machine.mem t := by
  have hroot : ∀ i, entrySlot hhdm 0 (cs.machine.mem new i) = .empty := entrySlot_of_zero hzero 0
  have hcode : pagingClonePageTable A hhdm old new .pml4 cs
      = (.ok, new, clonePml4 A hhdm new old cs) := by
    rw [pagingClonePageTable, if_neg hnew]
  rw [hcode] at hfresh ⊢
  dsimp only at hfresh ⊢
  have hstart : CopyState A hhdm old new cs.machine
      (clonePml4 A hhdm new old cs).machine.allocs cs.machine :=
    copyState_start_of_empty hroot hapart hfresh.pages
  obtain ⟨hstep, -⟩ := clonePml4_copy hw (CloneTwin.refl cs) hstart le_rfl
  have hleaf := hstep.copied.leaf_iff (fun q e => hstep.filled q e List.nil_prefix)
    fun q hq => slotAt_eq_empty_of_root hroot hq
  refine ⟨rfl, hleaf, pagingResolveVirtualAddress_congr fun q => ?_, ?_⟩
  · refine Option.ext fun e => ?_
    rw [Slot.leaf?_eq_some, Slot.leaf?_eq_some, hleaf]
  · obtain ⟨used, hinv⟩ := hstep.state
    exact hinv.old_same

/-! ## Two small page tables -/

/-- Only the first entry of a table is ever present. -/
def OnlyFirst (s : Machine σ) : Prop := ∀ t i, i ≠ 0 → (s.mem t i).present = false

theorem OnlyFirst.zeroPage (h : OnlyFirst s) (t : TablePtr) : OnlyFirst (s.zeroPage t) := by
  intro u i hi
  by_cases hu : u = t
  · rw [hu, Machine.mem_zeroPage_self]
    exact present_zero
  · rw [Machine.mem_zeroPage_of_ne hu]
    exact h u i hi

theorem OnlyFirst.storeEntry (h : OnlyFirst s) (t : TablePtr) (e : PageTableEntry) :
    OnlyFirst (s.storeEntry t 0 e) := by
  intro u i hi
  rw [Machine.mem_storeEntry_of_ne (fun heq => hi (Prod.mk.inj heq).2)]
  exact h u i hi

/-- The first index of a table, and the others. -/
theorem exists_tableIndices_eq :
    ∃ is : List TableIndex, tableIndices = 0 :: is ∧ ∀ i ∈ is, i ≠ 0 := by
  have hcons : tableIndices = 0 :: ((List.range 511).map Nat.succ).map (BitVec.ofNat 9) := by
    rw [tableIndices, List.range_succ_eq_map]
    rfl
  refine ⟨_, hcons, fun i hi => ?_⟩
  have hsorted := pairwise_tableIndices
  rw [hcons, List.pairwise_cons] at hsorted
  exact (BitVec.ne_of_lt (hsorted.1 i hi)).symm

/-- Where only first entries are present, a loop over a table runs its body
once. -/
theorem forPresentEntries_of_onlyFirst {t : TablePtr}
    {body : TableIndex → CloneState σ → CloneState σ} {cs cs' : CloneState σ}
    (hp : (cs.machine.mem t 0).present = true) (hbody : body 0 cs = cs')
    (h : OnlyFirst cs'.machine) : forPresentEntries t body cs = cs' := by
  obtain ⟨is, hindices, his⟩ := exists_tableIndices_eq
  rw [forPresentEntries, hindices, List.foldl_cons, if_pos hp, hbody]
  clear hindices
  induction is with
  | nil => rfl
  | cons i is ih =>
    rw [List.foldl_cons, h t i (his i List.mem_cons_self)]
    exact ih fun j hj => his j (List.mem_cons_of_mem _ hj)

/-- **A tree of one large page**: a PML4 and a PDPR. -/
theorem OnlyFirst.slot_ne_empty (h : OnlyFirst s) {c : TablePtr} {e : PageTableEntry}
    (hc : pageSlot hhdm s.mem old [0] = .table c) (he : pageSlot hhdm s.mem old [0, 0] = .leaf e)
    {p : List TableIndex} (hp : pageSlot hhdm s.mem old p ≠ .empty) :
    p = [] ∨ p = [0] ∨ p = [0, 0] := by
  have hroot : pageSlot hhdm s.mem old [] = .table old := rfl
  have hone : ∀ i, i ≠ 0 → pageSlot hhdm s.mem old [i] = .empty := by
    intro i hi
    rw [show [i] = [] ++ [i] from rfl, pageSlot, slotAt_snoc_of_table hroot]
    exact entrySlot_of_not_present (h _ i hi) _
  have htwo : ∀ i, i ≠ 0 → pageSlot hhdm s.mem old [0, i] = .empty := by
    intro i hi
    rw [show [0, i] = [0] ++ [i] from rfl, pageSlot, slotAt_snoc_of_table hc]
    exact entrySlot_of_not_present (h _ i hi) _
  cases p with
  | nil => exact Or.inl rfl
  | cons i p =>
    by_cases hi : i = 0
    · subst hi
      cases p with
      | nil => exact Or.inr (Or.inl rfl)
      | cons j p =>
        by_cases hj : j = 0
        · subst hj
          by_cases hnil : p = []
          · exact Or.inr (Or.inr (by rw [hnil]))
          · exact absurd (slotAt_append_of_not_table (p := [0, 0]) hnil fun t ht => by
              cases he.symm.trans ht) hp
        · by_cases hnil : p = []
          · exact absurd (hnil ▸ htwo j hj) hp
          · exact absurd (slotAt_append_of_not_table (p := [0, j]) hnil fun t ht => by
              cases (htwo j hj).symm.trans ht) hp
    · by_cases hnil : p = []
      · exact absurd (hnil ▸ hone i hi) hp
      · exact absurd (slotAt_append_of_not_table (p := [i]) hnil fun t ht => by
          cases (hone i hi).symm.trans ht) hp

/-- Its tables. -/
theorem OnlyFirst.pageTables_eq (h : OnlyFirst s) {c : TablePtr} {e : PageTableEntry}
    (hc : pageSlot hhdm s.mem old [0] = .table c) (he : pageSlot hhdm s.mem old [0, 0] = .leaf e) :
    pageTables hhdm s.mem old = {old, c} := by
  ext t
  constructor
  · rintro ⟨p, hp⟩
    rcases h.slot_ne_empty hc he (p := p) (by rw [pageSlot, hp]; simp) with rfl | rfl | rfl
    · exact Or.inl (Slot.table.inj hp).symm
    · exact Or.inr (Slot.table.inj (hc.symm.trans hp)).symm
    · cases he.symm.trans hp
  · rintro (rfl | rfl)
    · exact root_mem_tables
    · exact mem_tables hc

/-- A machine with two page tables: at `0x1000` one that maps the first
gigabyte to the second, at `0x3000` one that maps it to the third. -/
def twoTablesMachine : CloneState ℕ where
  machine :=
    { mem t i :=
        if i = 0 then
          if t = higherHalf + 0x1000#64 then 0x2003#64
          else if t = higherHalf + 0x2000#64 then 0x40000083#64
          else if t = higherHalf + 0x3000#64 then 0x4003#64
          else if t = higherHalf + 0x4000#64 then 0x80000083#64
          else 0#64
        else 0#64
      pmm := 5
      trace := [] }
  pml4Idx := 0
  pdprIdx := 0
  pdIdx := 0
  ptIdx := 0

theorem onlyFirst_twoTablesMachine : OnlyFirst twoTablesMachine.machine := by
  intro t i hi
  simp only [twoTablesMachine, if_neg hi]
  exact present_zero

/-- The leaf of the first page table. -/
theorem leaf_twoTablesMachine :
    pageSlot higherHalf twoTablesMachine.machine.mem (higherHalf + 0x1000#64) [0, 0]
      = .leaf 0x40000083#64 := by rfl

/-- The tables of the first page table. -/
theorem pageTables_twoTablesMachine :
    pageTables higherHalf twoTablesMachine.machine.mem (higherHalf + 0x1000#64)
      = {higherHalf + 0x1000#64, higherHalf + 0x2000#64} :=
  onlyFirst_twoTablesMachine.pageTables_eq rfl leaf_twoTablesMachine

/-- Cloning the first page table is one mapping. -/
theorem clonePml4_twoTablesMachine {new : TablePtr}
    (h : OnlyFirst (pagingMapPageWithoutTlbInvalidation bumpAllocator higherHalf new
      0x40000000#64 0#64 .gb1 0x83#64 twoTablesMachine.machine).2) :
    (clonePml4 bumpAllocator higherHalf new (higherHalf + 0x1000#64) twoTablesMachine).machine
      = (pagingMapPageWithoutTlbInvalidation bumpAllocator higherHalf new
        0x40000000#64 0#64 .gb1 0x83#64 twoTablesMachine.machine).2 := by
  have hpdpr : clonePdpr bumpAllocator higherHalf new (higherHalf + 0x2000#64) twoTablesMachine
      = cloneLeaf bumpAllocator higherHalf new .gb1 0x40000083#64 0#64 twoTablesMachine :=
    forPresentEntries_of_onlyFirst rfl rfl h
  have hpml4 : clonePml4 bumpAllocator higherHalf new (higherHalf + 0x1000#64) twoTablesMachine
      = cloneLeaf bumpAllocator higherHalf new .gb1 0x40000083#64 0#64 twoTablesMachine :=
    forPresentEntries_of_onlyFirst rfl hpdpr h
  rw [hpml4]
  rfl

/-- Mapping the page in an empty PML4. -/
theorem onlyFirst_map_twoTablesMachine :
    OnlyFirst (pagingMapPageWithoutTlbInvalidation bumpAllocator higherHalf
      (higherHalf + 0x8000#64) 0x40000000#64 0#64 .gb1 0x83#64 twoTablesMachine.machine).2 := by
  have hstart : OnlyFirst (twoTablesMachine.machine.afterAlloc bumpAllocator) :=
    onlyFirst_twoTablesMachine
  exact ((hstart.zeroPage (higherHalf + 0x5000#64)).storeEntry (higherHalf + 0x8000#64)
    0x5003#64).storeEntry (higherHalf + 0x5000#64) 0x40000083#64

/-- The clone of the first page table into an empty PML4. -/
theorem pagingClonePageTable_twoTablesMachine :
    (pagingClonePageTable bumpAllocator higherHalf (higherHalf + 0x1000#64)
        (higherHalf + 0x8000#64) .pml4 twoTablesMachine).2.2.machine
      = (pagingMapPageWithoutTlbInvalidation bumpAllocator higherHalf (higherHalf + 0x8000#64)
        0x40000000#64 0#64 .gb1 0x83#64 twoTablesMachine.machine).2 := by
  rw [pagingClonePageTable, if_neg (by decide)]
  dsimp only
  exact clonePml4_twoTablesMachine onlyFirst_map_twoTablesMachine

/-- The pages it gets are fresh. -/
theorem freshBetween_twoTablesMachine :
    FreshBetween bumpAllocator higherHalf
      (insert (higherHalf + 0x8000#64)
        (pageTables higherHalf twoTablesMachine.machine.mem (higherHalf + 0x1000#64)))
      twoTablesMachine.machine
      (pagingClonePageTable bumpAllocator higherHalf (higherHalf + 0x1000#64)
        (higherHalf + 0x8000#64) .pml4 twoTablesMachine).2.2.machine := by
  have hfresh : FreshPages bumpAllocator higherHalf 3 (insert (higherHalf + 0x8000#64)
      {higherHalf + 0x1000#64, higherHalf + 0x2000#64}) twoTablesMachine.machine.pmm := by
    simp only [FreshPages, Set.mem_insert_iff, Set.mem_singleton_iff]
    decide
  rw [pageTables_twoTablesMachine, pagingClonePageTable_twoTablesMachine]
  exact ⟨hfresh.mono (Nat.sub_le_iff_le_add'.mpr (allocs_pagingMapPage _ _ _ _ _).2)⟩

/-- An empty PML4 apart from the first page table. -/
theorem cloneTarget_twoTablesMachine :
    (∀ i, twoTablesMachine.machine.mem (higherHalf + 0x8000#64) i = 0#64)
      ∧ higherHalf + 0x8000#64
        ∉ pageTables higherHalf twoTablesMachine.machine.mem (higherHalf + 0x1000#64) := by
  constructor
  · intro i
    by_cases hi : i = 0 <;> simp [twoTablesMachine, hi]
  · rw [pageTables_twoTablesMachine]
    simp only [Set.mem_insert_iff, Set.mem_singleton_iff]
    decide

/-- A machine with a page table, at `0x1000`, that maps the first gigabyte to the
second and two megabytes behind it to the start of the third. -/
def twoSizesMachine : CloneState ℕ where
  machine :=
    { mem t i :=
        if i = 0 then
          if t = higherHalf + 0x1000#64 then 0x2003#64
          else if t = higherHalf + 0x2000#64 then 0x40000083#64
          else if t = higherHalf + 0x3000#64 then 0x80000083#64
          else 0#64
        else if i = 1 then
          if t = higherHalf + 0x2000#64 then 0x3003#64 else 0#64
        else 0#64
      pmm := 5
      trace := [] }
  pml4Idx := 0
  pdprIdx := 0
  pdIdx := 0
  ptIdx := 0

set_option maxRecDepth 8000 in
/-- Cloning it takes two pages. -/
theorem allocs_twoSizesMachine :
    (pagingClonePageTable bumpAllocator higherHalf (higherHalf + 0x1000#64)
        (higherHalf + 0x8000#64) .pml4 twoSizesMachine).2.2.machine.allocs
      - twoSizesMachine.machine.allocs = 2 := by decide +kernel

/-- Its tables, by their depth. -/
def twoSizesTables : ℕ → Set TablePtr
  | 0 => {higherHalf + 0x1000#64}
  | 1 => {higherHalf + 0x2000#64}
  | 2 => {higherHalf + 0x3000#64}
  | _ => ∅

theorem pageTables_twoSizesMachine :
    pageTables higherHalf twoSizesMachine.machine.mem (higherHalf + 0x1000#64)
      ⊆ {higherHalf + 0x1000#64, higherHalf + 0x2000#64, higherHalf + 0x3000#64} := by
  rintro t ⟨p, ht⟩
  have hdepth : t ∈ twoSizesTables p.length := by
    refine mem_of_slotAt_table (by rfl) (fun d t i c hd hc => ?_) ht
    obtain ⟨-, hp, hs, -⟩ := of_entrySlot_eq_table hc
    have hi : i = 0 ∨ i = 1 := by
      by_contra hne
      rw [not_or] at hne
      simp only [twoSizesMachine, if_neg hne.1, if_neg hne.2] at hp
      exact absurd hp (by decide)
    match d with
    | 0 =>
      obtain rfl := hd
      rcases hi with rfl | rfl
      · exact (Slot.table.inj hc).symm
      · exact absurd hp (by decide)
    | 1 =>
      obtain rfl := hd
      rcases hi with rfl | rfl
      · exact absurd (hs (by decide)) (by decide)
      · exact (Slot.table.inj hc).symm
    | 2 =>
      obtain rfl := hd
      rcases hi with rfl | rfl
      · exact absurd (hs (by decide)) (by decide)
      · exact absurd hp (by decide)
    | _ + 3 => cases hd
  match hlen : p.length with
  | 0 => exact .inl (by rwa [hlen] at hdepth)
  | 1 => exact .inr (.inl (by rwa [hlen] at hdepth))
  | 2 => exact .inr (.inr (by rwa [hlen] at hdepth))
  | _ + 3 =>
    rw [hlen] at hdepth
    cases hdepth

/-- The clone of a page table with pages of two sizes resolves as it does. -/
theorem pagingClonePageTable_copies_gigabyte :
    let result := (pagingClonePageTable bumpAllocator higherHalf (higherHalf + 0x1000#64)
      (higherHalf + 0x8000#64) .pml4 twoSizesMachine).2.2.machine
    pagingResolveVirtualAddress higherHalf (higherHalf + 0x8000#64) 0x1234#64 result
        = 0x40000000#64 ∧
      pagingResolveVirtualAddress higherHalf (higherHalf + 0x8000#64) 0x40001234#64 result
        = 0x80000000#64 := by
  have hzero : ∀ i, twoSizesMachine.machine.mem (higherHalf + 0x8000#64) i = 0#64 := by
    intro i
    by_cases h0 : i = 0 <;> by_cases h1 : i = 1 <;> simp [twoSizesMachine, h0, h1]
  have hapart : higherHalf + 0x8000#64
      ∉ pageTables higherHalf twoSizesMachine.machine.mem (higherHalf + 0x1000#64) := by
    intro hmem
    have htables := pageTables_twoSizesMachine hmem
    simp only [Set.mem_insert_iff, Set.mem_singleton_iff] at htables
    revert htables
    decide
  have hfresh : FreshPages bumpAllocator higherHalf 2 (insert (higherHalf + 0x8000#64)
      {higherHalf + 0x1000#64, higherHalf + 0x2000#64, higherHalf + 0x3000#64})
      twoSizesMachine.machine.pmm := by
    simp only [FreshPages, Set.mem_insert_iff, Set.mem_singleton_iff]
    decide
  obtain ⟨-, -, hresolve, -⟩ := @pagingClonePageTable_copies ℕ bumpAllocator higherHalf
    (higherHalf + 0x1000#64) (higherHalf + 0x8000#64) (by decide) twoSizesMachine (by decide) hzero
    hapart ⟨by
      rw [allocs_twoSizesMachine]
      exact hfresh.anti (Set.insert_subset_insert pageTables_twoSizesMachine)⟩
  exact ⟨(hresolve 0x1234#64).trans (by decide), (hresolve 0x40001234#64).trans (by decide)⟩
