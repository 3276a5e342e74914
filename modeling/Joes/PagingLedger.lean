import Joes.PagingOutOfMemory
import Joes.ResourceLedger

/-!
# Every page of `pmm_alloc` is a table, and every table is one of its pages

Mapping takes pages from `pmm_alloc` for the tables it creates, and unmapping
gives the tables it has emptied back to `pmm_free`. The trace of a machine has
both, so it is a ledger in the sense of `ResourceLedger`; `Booked` says that
the ledger never went wrong since some state, and that the pages which are out
are exactly the tables of the tree below the PML4.

Each of the elementary writes keeps that. Linking a fresh table in takes a page
and adds one table, storing or clearing a leaf does neither, and unlinking an
empty table takes one table out – because the heap is a tree, no other entry
names it – and gives one page back. The rest are the two inductions along the
walk, down (`pagingMapPage_invariant`) and up (`pagingUnmapPage_induction`), and
the one along the run: `pagingRun_ledger`.
-/

open PageTableEntry RadixHeap ResourceLedger

variable {σ : Type} {A : PageAllocator σ} {hhdm : BitVec 64} {pml4 : TablePtr}
variable {s s' s₀ s₁ : Machine σ} {M : AddressMap} {used : Set TablePtr} {limit : ℕ}

/-- What an event is in the ledger of pages. -/
def MemoryEvent.ledgerEntry : MemoryEvent → LedgerEntry (BitVec 64)
  | alloc page => .acquire page
  | free page => .release page
  | zero _ | store _ _ => .other

/-- A page handed out. -/
theorem held_alloc {page : BitVec 64} {l : List MemoryEvent} {H : Finset (BitVec 64)}
    (hl : held MemoryEvent.ledgerEntry l = some H) (hpage : page ∉ H) :
    held MemoryEvent.ledgerEntry (.alloc page :: l) = some (insert page H) :=
  held_cons_of_acquire (e := MemoryEvent.alloc page) rfl hl hpage

/-- A page given back. -/
theorem held_free {page : BitVec 64} {l : List MemoryEvent} {H : Finset (BitVec 64)}
    (hl : held MemoryEvent.ledgerEntry l = some H) (hpage : page ∈ H) :
    held MemoryEvent.ledgerEntry (.free page :: l) = some (H.erase page) :=
  held_cons_of_release (e := MemoryEvent.free page) rfl hl hpage

@[simp] theorem held_zero (t : TablePtr) (l : List MemoryEvent) :
    held MemoryEvent.ledgerEntry (.zero t :: l) = held MemoryEvent.ledgerEntry l :=
  held_cons_of_other (e := MemoryEvent.zero t) rfl

@[simp] theorem held_store (t : TablePtr) (i : TableIndex) (l : List MemoryEvent) :
    held MemoryEvent.ledgerEntry (.store t i :: l) = held MemoryEvent.ledgerEntry l :=
  held_cons_of_other (e := MemoryEvent.store t i) rfl

/-- The pages `pmm_alloc` has handed out since a state that have not been given
back; `none` if one was handed out twice, or given back twice. -/
def heldPages (s₀ s : Machine σ) : Option (Finset (BitVec 64)) :=
  held MemoryEvent.ledgerEntry (s₀.eventsSince s)

/-- A table of the tree other than the PML4. -/
def IsSubtable (hhdm : BitVec 64) (pml4 : TablePtr) (s : Machine σ) (t : TablePtr) : Prop :=
  t ∈ pageTables hhdm s.mem pml4 ∧ t ≠ pml4

/-- The entry `r.2` of the table `r.1` of the tree is present and names the
table `c`. -/
def Names (hhdm : BitVec 64) (pml4 : TablePtr) (s : Machine σ) (r : TablePtr × TableIndex)
    (c : TablePtr) : Prop :=
  ∃ p, pageSlot hhdm s.mem pml4 p = .table r.1 ∧ (s.mem r.1 r.2).present = true
    ∧ entrySlot hhdm p.length (s.mem r.1 r.2) = .table c

/-- **The books are right** since the state `s₀`: the pages that are out are
those of the tables below the PML4. -/
def Booked (hhdm : BitVec 64) (pml4 : TablePtr) (s₀ s : Machine σ) : Prop :=
  ∃ new H, s.trace = new ++ s₀.trace ∧ held MemoryEvent.ledgerEntry new = some H
    ∧ ∀ page, page ∈ H ↔ IsSubtable hhdm pml4 s (page + hhdm)

/-! ## What the writes enter -/

namespace Booked

/-- An all-zero PML4 has no table below it. -/
theorem start (hzero : ∀ i, s.mem pml4 i = 0#64) : Booked hhdm pml4 s s := by
  refine ⟨[], ∅, rfl, rfl, fun page => ?_⟩
  have htables : pageTables hhdm s.mem pml4 = {pml4} :=
    tables_eq_root_of_empty (entrySlot_of_zero hzero 0)
  simp [IsSubtable, htables]

/-- A write that leaves the tables as they are. -/
theorem storeEntry (h : Booked hhdm pml4 s₀ s) {t : TablePtr} {i : TableIndex}
    {e : PageTableEntry}
    (htables : pageTables hhdm (s.storeEntry t i e).mem pml4 = pageTables hhdm s.mem pml4) :
    Booked hhdm pml4 s₀ (s.storeEntry t i e) := by
  obtain ⟨new, H, htrace, hheld, hH⟩ := h
  refine ⟨.store t i :: new, H, ?_, ?_, fun page => ?_⟩
  · rw [Machine.storeEntry, htrace, List.cons_append]
  · rw [held_store, hheld]
  · rw [hH, IsSubtable, IsSubtable, htables]

/-- **Linking a table in** takes a page and makes it a table. -/
theorem linkNext (h : Booked hhdm pml4 s₀ s) {level : PageTableLevel} {t : TablePtr}
    {i : TableIndex} (hnew : (A.pmmAlloc s.pmm).1 + hhdm ∉ pageTables hhdm s.mem pml4)
    (htables : pageTables hhdm (linkNext A hhdm level t i s).mem pml4
      = insert ((A.pmmAlloc s.pmm).1 + hhdm) (pageTables hhdm s.mem pml4)) :
    Booked hhdm pml4 s₀ (linkNext A hhdm level t i s) := by
  obtain ⟨new, H, htrace, hheld, hH⟩ := h
  set page := (A.pmmAlloc s.pmm).1 with hpage
  have hout : page ∉ H := fun hmem => hnew ((hH page).mp hmem).1
  have hroot : page + hhdm ≠ pml4 := fun heq => hnew (heq ▸ root_mem_tables)
  refine ⟨.store t i :: .zero (page + hhdm) :: .alloc page :: new, insert page H, ?_, ?_,
    fun q => ?_⟩
  · show MemoryEvent.store t i :: .zero (page + hhdm) :: .alloc page :: s.trace = _
    rw [htrace]
    rfl
  · rw [held_store, held_zero, held_alloc hheld hout]
  · rw [Finset.mem_insert, hH, IsSubtable, IsSubtable, htables, Set.mem_insert_iff,
      BitVec.add_left_inj]
    constructor
    · rintro (rfl | ⟨hq, hne⟩)
      · exact ⟨Or.inl rfl, hroot⟩
      · exact ⟨Or.inr hq, hne⟩
    · rintro ⟨hq | hq, hne⟩
      · exact Or.inl hq
      · exact Or.inr ⟨hq, hne⟩

/-- **Unlinking a table** gives its page back. -/
theorem unlink (h : Booked hhdm pml4 s₀ s) {t c : TablePtr} {i : TableIndex} {e : PageTableEntry}
    (hc : IsSubtable hhdm pml4 s c)
    (htables : pageTables hhdm (s.storeEntry t i e).mem pml4
      = pageTables hhdm s.mem pml4 \ {c}) :
    Booked hhdm pml4 s₀ ((s.storeEntry t i e).afterFree A (c - hhdm)) := by
  obtain ⟨new, H, htrace, hheld, hH⟩ := h
  have hin : c - hhdm ∈ H := by
    rw [hH, BitVec.sub_add_cancel]
    exact hc
  refine ⟨.free (c - hhdm) :: .store t i :: new, H.erase (c - hhdm), ?_, ?_, fun page => ?_⟩
  · show MemoryEvent.free (c - hhdm) :: .store t i :: s.trace = _
    rw [htrace]
    rfl
  · exact held_free (by rw [held_store, hheld]) hin
  · have hpage : page ≠ c - hhdm ↔ page + hhdm ≠ c := by
      rw [ne_eq, ne_eq, eq_comm, BitVec.sub_eq_iff_eq_add, eq_comm]
    rw [Finset.mem_erase, hH, hpage]
    show _ ↔ page + hhdm ∈ pageTables hhdm (s.storeEntry t i e).mem pml4 ∧ _
    rw [htables, Set.mem_sdiff, Set.mem_singleton_iff, IsSubtable]
    tauto

end Booked

/-! ## Down and up the tree -/

/-- **Mapping a page** at a free slot under no leaf keeps the books. -/
theorem booked_pagingMapPage (hw : hhdm.toNat + 2 ^ 40 ≤ 2 ^ 64) {size : PageSize}
    {virt phys flags : BitVec 64} (h : MapState A hhdm pml4 limit used s)
    (hbook : Booked hhdm pml4 s₀ s)
    (hlimit : (pagingMapPageWithoutTlbInvalidation A hhdm pml4 phys virt size flags s).2.allocs
      ≤ limit)
    (hf : LeafFlags size flags)
    (habove : ∀ q, q <+: tablePath size virt → (pageSlot hhdm s.mem pml4 q).leaf? = none)
    (hfree : pageSlot hhdm s.mem pml4 (pagePath size virt) = .empty) :
    Booked hhdm pml4 s₀
      (pagingMapPageWithoutTlbInvalidation A hhdm pml4 phys virt size flags s).2 := by
  refine pagingMapPage_invariant hw (fun used p t i level s hs hlimit ht hd hl hemp hbook => ?_)
    (fun t s htree ht hemp hbook => ?_) h hbook hlimit habove hfree
  · obtain ⟨-, hframe, hnew, -⟩ := hs.next hlimit
    have hfresh : (A.pmmAlloc s.pmm).1 + hhdm ∉ pageTables hhdm s.mem pml4 := fun hmem =>
      hnew (hs.tables_used hmem)
    have hslots := slotAt_linkNext hs.tree hframe hfresh ht hd hl hemp
    refine hbook.linkNext hfresh (tables_update_table hslots fun u hu => ?_)
    cases hemp.symm.trans hu
  · refine hbook.storeEntry (tables_update_of_not_table (slotAt_storeLeaf phys htree ht hf hemp)
      (fun u hu => ?_) fun u hu => by cases hu)
    cases hemp.symm.trans hu

/-- The tree after a slot has been emptied. -/
theorem Emptied.slotAt_eq {p : List TableIndex} {t : TablePtr}
    (h : Emptied hhdm pml4 t p s s') :
    slotAt (entrySlot hhdm) s'.mem pml4
      = Function.update (slotAt (entrySlot hhdm) s.mem pml4) p .empty := by
  funext q
  by_cases hq : q = p
  · rw [hq, Function.update_self]
    exact h.self
  · rw [Function.update_of_ne hq]
    exact h.other q hq

/-- **Clearing a leaf** keeps the books. -/
theorem booked_clear {r : List TableIndex} {i : TableIndex} {t : TablePtr} {e : PageTableEntry}
    (hbook : Booked hhdm pml4 s₀ s) (htree : Unshared (entrySlot hhdm) s.mem pml4)
    (ht : pageSlot hhdm s.mem pml4 r = .table t)
    (he : pageSlot hhdm s.mem pml4 (r ++ [i]) = .leaf e) :
    Booked hhdm pml4 s₀ (s.storeEntry t i (s.mem t i).clearPresent) := by
  have hempty := Emptied.of_clear htree ht fun j =>
    slotAt_append_of_not_table (by simp) fun u hu => by cases he.symm.trans hu
  refine hbook.storeEntry (tables_update_of_not_table hempty.slotAt_eq (fun u hu => ?_)
    fun u hu => by cases hu)
  cases he.symm.trans hu

/-- **Checking the table** at `r ++ [i]` keeps the books, whether it is unlinked
or not. -/
theorem booked_check {p r : List TableIndex} {i : TableIndex} {t c : TablePtr}
    (hbook : Booked hhdm pml4 s₀ s₁) (h : Unmapped hhdm pml4 p (r ++ [i]) s s₁)
    (hd : r.length ≤ 2) (ht : pageSlot hhdm s.mem pml4 r = .table t)
    (hc : pageSlot hhdm s.mem pml4 (r ++ [i]) = .table c) :
    Booked hhdm pml4 s₀ (pagingCheckForEmptyTable A hhdm c t i s₁) := by
  have ht₁ : pageSlot hhdm s₁.mem pml4 r = .table t := by
    rw [h.above r (List.prefix_append _ _), ht]
  have hc₁ : pageSlot hhdm s₁.mem pml4 (r ++ [i]) = .table c := by
    rw [h.above _ List.prefix_rfl, hc]
  have hempty := tableEmpty_iff_slots (by rw [List.length_append, List.length_singleton]; omega) hc₁
  unfold pagingCheckForEmptyTable
  by_cases he : tableEmpty c s₁ = true
  · rw [if_pos he]
    have hclear := Emptied.of_clear h.tree ht₁ (hempty.mp he)
    refine hbook.unlink ⟨mem_tables hc₁, ?_⟩ (tables_update_empty h.tree hclear.slotAt_eq hc₁)
    -- the PML4 is found under the empty path, and under no other
    rintro rfl
    have hnil := h.tree (r ++ [i]) [] c hc₁ rfl
    simp at hnil
  · rw [if_neg he]
    exact hbook

/-- **Unmapping a leaf** keeps the books. -/
theorem booked_pagingUnmapPage {size : PageSize} {virt : BitVec 64} {e : PageTableEntry}
    (hbook : Booked hhdm pml4 s₀ s) (htree : Unshared (entrySlot hhdm) s.mem pml4)
    (hne : NoEmptyTable hhdm pml4 [] s)
    (h : pageSlot hhdm s.mem pml4 (pagePath size virt) = .leaf e) :
    Booked hhdm pml4 s₀ (pagingUnmapPage A hhdm pml4 virt size s).2 := by
  have hup : ∃ s', pagingUnmapPage A hhdm pml4 virt size s = (.ok, s') ∧
      Unmapped hhdm pml4 (pagePath size virt) [] s s' ∧ Booked hhdm pml4 s₀ s' := by
    refine pagingUnmapPage_induction
      (P := fun r s' => Unmapped hhdm pml4 (pagePath size virt) r s s' ∧ Booked hhdm pml4 s₀ s')
      h (fun r i t hpath ht => ?_) fun r i t c s₁ hd ht hc h₁ =>
        ⟨h₁.1.check hd ht hc, booked_check h₁.2 h₁.1 hd ht hc⟩
    rw [hpath] at h ⊢
    exact ⟨Unmapped.clear htree hne ht h, booked_clear hbook htree ht h⟩
  obtain ⟨s', hrun, -, hbook'⟩ := hup
  rw [hrun]
  exact hbook'

/-! ## Whole runs -/

/-- **The step of a run**: an admissible call keeps the books. -/
theorem Booked.exec (hw : hhdm.toNat + 2 ^ 40 ≤ 2 ^ 64) (hbook : Booked hhdm pml4 s₀ s)
    (h : Represents hhdm pml4 s M) {c : PagingCall} (hc : c.Admissible M)
    (hfresh : FreshBetween A hhdm (pageTables hhdm s.mem pml4) s (c.exec A hhdm pml4 s).2) :
    Booked hhdm pml4 s₀ (c.exec A hhdm pml4 s).2 := by
  cases c with
  | map phys v size flags =>
    obtain ⟨⟨hv, -, hflags⟩, hcase⟩ := hc
    show Booked hhdm pml4 s₀
      (pagingMapPageWithoutTlbInvalidation A hhdm pml4 phys v size flags s).2
    rcases hcase with hapart | hmapped
    · obtain ⟨habove, hfree⟩ := h.free_of_apart hv hapart
      exact booked_pagingMapPage hw ⟨h.tree, subset_rfl, hfresh.pages⟩ hbook le_rfl hflags habove
        hfree
    · obtain ⟨phys', hM⟩ := Option.ne_none_iff_exists'.mp hmapped
      obtain ⟨e, he, -⟩ := h.leaf_of_mapped hv hM
      rw [pagingMapPage_of_occupied phys flags (by rw [he]; simp)]
      exact hbook
  | unmap v size =>
    obtain ⟨hv, hcase⟩ := hc
    show Booked hhdm pml4 s₀ (pagingUnmapPage A hhdm pml4 v size s).2
    rcases hcase with hapart | hmapped
    · obtain ⟨habove, hfree⟩ := h.free_of_apart hv hapart
      rcases pagingUnmapPage_of_free_cases (A := A) h.nonempty habove hfree with
        hrun | ⟨t, i, hrun⟩
      · rw [hrun]
        exact hbook
      · rw [hrun]
        exact hbook.storeEntry (by rw [mem_storeEntry_eq_self rfl])
    · obtain ⟨phys', hM⟩ := Option.ne_none_iff_exists'.mp hmapped
      obtain ⟨e, he, -⟩ := h.leaf_of_mapped hv hM
      exact booked_pagingUnmapPage hbook h.tree h.nonempty he

/-- The books are right after every run. -/
theorem PagingRun.booked (hw : hhdm.toNat + 2 ^ 40 ≤ 2 ^ 64)
    (hzero : ∀ i, s₀.mem pml4 i = 0#64) (h : PagingRun A hhdm pml4 s₀ s M) :
    Booked hhdm pml4 s₀ s := by
  induction h with
  | start => exact Booked.start hzero
  | call c hrun hc hfresh ih => exact ih.exec hw (hrun.represents hw hzero) hc hfresh

/-- **A table is named by one entry**, and holds one that is present. -/
theorem Represents.subtable (h : Represents hhdm pml4 s M) {c : TablePtr}
    (hc : IsSubtable hhdm pml4 s c) :
    (∃! r, Names hhdm pml4 s r c) ∧ ∃ i, (s.mem c i).present = true := by
  obtain ⟨⟨p, hp⟩, hne⟩ := hc
  have hnil : p ≠ [] := by
    rintro rfl
    exact hne (Slot.table.inj hp).symm
  constructor
  · obtain ⟨q, i, rfl⟩ := (List.eq_nil_or_concat' p).resolve_left hnil
    obtain ⟨t, ht, hread⟩ := exists_table_of_snoc (by rw [hp]; simp)
    have hslot := hread.symm.trans hp
    refine ⟨(t, i), ⟨q, ht, (of_entrySlot_eq_table hslot).2.1, hslot⟩, ?_⟩
    rintro ⟨u, j⟩ ⟨r, hu, -, hread'⟩
    -- both entries are the last step of the one path to the table
    have hpath : r ++ [j] = q ++ [i] :=
      h.tree _ _ c ((slotAt_snoc_of_table hu j).trans hread') hp
    obtain ⟨rfl, hji⟩ := List.append_inj' hpath rfl
    exact Prod.ext (Slot.table.inj (hu.symm.trans ht)) (List.singleton_inj.mp hji)
  · obtain ⟨i, hi⟩ := h.nonempty p c hnil hnil hp
    refine ⟨i, ?_⟩
    by_contra hno
    refine hi ((slotAt_snoc_of_table hp i).trans (entrySlot_of_not_present ?_ _))
    simpa using hno

/-- Where nothing is mapped, there is no table but the PML4. -/
theorem Represents.not_isSubtable (h : Represents hhdm pml4 s M) (hM : ∀ p, M p = none)
    (t : TablePtr) : ¬ IsSubtable hhdm pml4 s t := by
  rintro ⟨⟨p, hp⟩, hne⟩
  have hnil : p ≠ [] := by
    rintro rfl
    exact hne (Slot.table.inj hp).symm
  obtain ⟨r, e, he⟩ := exists_leaf_below h.nonempty hnil hp
  obtain ⟨size, v, hv, hpath⟩ := exists_page_of_leaf he
  rw [← hpath] at he
  cases (hM _).symm.trans (h.mapped_of_leaf hv he)

/-- **No leaked and no dangling page tables.** In every state a run reaches,
the pages obtained from `pmm_alloc` and not given back – none of them obtained
twice in between, or given back twice – are those of the tables below the PML4;
each of these is named by exactly one entry and has a present one. When nothing
is mapped any more every page has been given back as often as it was
obtained. -/
theorem pagingRun_ledger (hw : hhdm.toNat + 2 ^ 40 ≤ 2 ^ 64)
    (hzero : ∀ i, s₀.mem pml4 i = 0#64) (h : PagingRun A hhdm pml4 s₀ s M) :
    (∃ H, heldPages s₀ s = some H ∧ ∀ page, page ∈ H ↔ IsSubtable hhdm pml4 s (page + hhdm)) ∧
    (∀ c, IsSubtable hhdm pml4 s c →
      (∃! r, Names hhdm pml4 s r c) ∧ ∃ i, (s.mem c i).present = true) ∧
    ((∀ p, M p = none) → heldPages s₀ s = some ∅ ∧
      ∀ page, (s₀.eventsSince s).countP (fun e => e.ledgerEntry = .acquire page)
        = (s₀.eventsSince s).countP (fun e => e.ledgerEntry = .release page)) := by
  have hr := h.represents hw hzero
  obtain ⟨new, H, htrace, hheld, hH⟩ := h.booked hw hzero
  have hevents := Machine.eventsSince_eq htrace
  rw [heldPages, hevents]
  refine ⟨⟨H, hheld, hH⟩, fun c => hr.subtable, fun hM => ?_⟩
  have hempty : H = ∅ := Finset.eq_empty_of_forall_notMem fun page hmem =>
    hr.not_isSubtable hM _ ((hH page).mp hmem)
  rw [hempty] at hheld
  refine ⟨hheld, fun page => ?_⟩
  rw [countP_acquire page hheld, if_neg (Finset.notMem_empty page), Nat.add_zero]

/-- The run that maps the first 2 MB and unmaps them again: both tables have
been given back. -/
theorem pagingRun_ledger_two :
    heldPages zeroMachine mappedMachine ≠ some ∅ ∧
      heldPages zeroMachine
        (pagingUnmapPage bumpAllocator higherHalf higherHalf 0#64 .mb2 mappedMachine).2
        = some ∅ :=
  ⟨by decide +kernel, ((pagingRun_ledger (by decide) (fun _ => rfl)
    pagingRun_unmap_mappedMachine).2.2 unmap_mappedMap).1⟩
