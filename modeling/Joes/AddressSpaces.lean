import Joes.PagingLedger

/-!
# Address spaces over one memory manager

Paging takes its tables from a memory manager that has other clients, and there may be
several PML4s. `PageOwner` is what the manager is for: it has a set of pages that are
held, hands out pages that are not, and takes back those that are.

Over any manager that keeps this contract, the address spaces are apart from each other.
A call on one of them only writes its own tables and pages that nobody held
(`Confined`), so after any sequence of calls on any of them, in any order, with pages
taken and given back by others in between, each of them represents the map that the
calls on it make (`SpaceRun.spaces`).
-/

open PageTableEntry RadixHeap

/-- **The contract of a memory manager.** -/
structure PageOwner {σ : Type} (A : PageAllocator σ) where
  /-- The states that the contract is about. -/
  Inv : σ → Prop
  /-- Those in which `pmm_alloc` may be called. -/
  Ready : σ → Prop
  /-- The pages that were handed out and not given back. -/
  held : σ → Set (BitVec 64)
  /-- Where there is no page, nothing changes. -/
  alloc_null : ∀ {p : σ}, Inv p → Ready p → (A.pmmAlloc p).1 = 0#64 →
    Inv (A.pmmAlloc p).2 ∧ held (A.pmmAlloc p).2 = held p
  /-- A page that is handed out is one below `2 ^ 40` that was not held, and it is held
  now. -/
  alloc_page : ∀ {p : σ}, Inv p → Ready p → (A.pmmAlloc p).1 ≠ 0#64 →
    IsFrame .kb4 (A.pmmAlloc p).1 ∧ (A.pmmAlloc p).1 ∉ held p ∧ Inv (A.pmmAlloc p).2 ∧
      held (A.pmmAlloc p).2 = insert (A.pmmAlloc p).1 (held p)
  /-- A page that is held is taken back. -/
  free : ∀ {p : σ} {page : BitVec 64}, Inv p → page ∈ held p →
    Inv (A.pmmFree page p) ∧ held (A.pmmFree page p) = held p \ {page}

/-- **There are pages for the next `n` calls** of `pmm_alloc`. -/
def PageOwner.Available {σ : Type} {A : PageAllocator σ} (O : PageOwner A) : ℕ → σ → Prop
  | 0, _ => True
  | n + 1, p => O.Ready p ∧ (A.pmmAlloc p).1 ≠ 0#64 ∧ O.Available n (A.pmmAlloc p).2

variable {σ : Type} {A : PageAllocator σ} {hhdm : BitVec 64} {pml4 : TablePtr}
variable {s s' s₁ s₀ : Machine σ} {M : AddressMap} (O : PageOwner A)

variable {O} in
theorem PageOwner.Available.mono {n n' : ℕ} {p : σ} (h : O.Available n p) (hle : n' ≤ n) :
    O.Available n' p := by
  induction n' generalizing n p with
  | zero => trivial
  | succ n' ih =>
    cases n with
    | zero => exact absurd hle (Nat.not_succ_le_zero n')
    | succ n => exact ⟨h.1, h.2.1, ih h.2.2 (Nat.le_of_succ_le_succ hle)⟩

/-- The pointers to the pages that are held. -/
def PageOwner.pointers (hhdm : BitVec 64) (p : σ) : Set TablePtr := {t | t - hhdm ∈ O.held p}

theorem PageOwner.add_mem_pointers {p : σ} {page : BitVec 64} :
    page + hhdm ∈ O.pointers hhdm p ↔ page ∈ O.held p := by
  show page + hhdm - hhdm ∈ O.held p ↔ _
  rw [BitVec.add_sub_cancel]

/-- **The pages that are handed out are fresh**: nothing that is held is among them. -/
theorem PageOwner.freshPages {n : ℕ} {p : σ} (hp : O.Inv p) (havail : O.Available n p) :
    FreshPages A hhdm n (O.pointers hhdm p) p := by
  induction n generalizing p with
  | zero => trivial
  | succ n ih =>
    obtain ⟨hready, hpage, hrest⟩ := havail
    obtain ⟨hframe, hnew, hinv, hheld⟩ := O.alloc_page hp hready hpage
    refine ⟨hpage, hframe, mt O.add_mem_pointers.mp hnew, (ih hinv hrest).anti ?_⟩
    intro t ht
    rw [pointers, hheld]
    rcases ht with rfl | ht
    · exact .inl (BitVec.add_sub_cancel _ _)
    · exact .inr ht

/-! ## A call on one of the spaces -/

/-- **The tables of a space are held.** -/
structure PageOwner.Owns (hhdm : BitVec 64) (pml4 : TablePtr) (s : Machine σ) : Prop where
  inv : O.Inv s.pmm
  tables : pageTables hhdm s.mem pml4 ⊆ O.pointers hhdm s.pmm

/-- **The effect of a call is confined** to the tables of a space and to pages that were
not held. -/
structure PageOwner.Confined (hhdm : BitVec 64) (pml4 : TablePtr) (s s' : Machine σ) : Prop where
  owns : O.Owns hhdm pml4 s'
  /-- A page that is held and no table of the space is unchanged. -/
  frame : ∀ t ∈ O.pointers hhdm s.pmm, t ∉ pageTables hhdm s.mem pml4 → s'.mem t = s.mem t
  /-- It does not become a table of the space. -/
  tables : ∀ t ∈ O.pointers hhdm s.pmm, t ∈ pageTables hhdm s'.mem pml4 →
    t ∈ pageTables hhdm s.mem pml4
  /-- It is still held. -/
  held : ∀ t ∈ O.pointers hhdm s.pmm, t ∉ pageTables hhdm s.mem pml4 → t ∈ O.pointers hhdm s'.pmm

namespace PageOwner

variable {O} {used : Set TablePtr} {limit : ℕ}

/-- A call that changes neither the memory nor the manager. -/
theorem Owns.confined (h : O.Owns hhdm pml4 s) (hmem : s'.mem = s.mem) (hpmm : s'.pmm = s.pmm) :
    O.Confined hhdm pml4 s s' := by
  refine ⟨⟨by rw [hpmm]; exact h.inv, by rw [hmem, hpmm]; exact h.tables⟩, fun t _ _ => ?_,
    fun t _ ht => ?_, fun t ht _ => ?_⟩
  · rw [hmem]
  · rwa [hmem] at ht
  · rwa [hpmm]

/-- **What a call keeps on its way**: the tables are held, and so is what is not one of the
space it started from. -/
structure Keeps (O : PageOwner A) (hhdm : BitVec 64) (pml4 : TablePtr) (s s' : Machine σ) :
    Prop where
  owns : O.Owns hhdm pml4 s'
  held : ∀ t ∈ O.pointers hhdm s.pmm, t ∉ pageTables hhdm s.mem pml4 → t ∈ O.pointers hhdm s'.pmm

/-- **Linking a table in**: its page is held from then on. -/
theorem keeps_linkNext (h : O.Keeps hhdm pml4 s₀ s) (hs : MapState A hhdm pml4 limit used s)
    (hlimit : s.allocs + 1 ≤ limit) (hready : O.Ready s.pmm) {p : List TableIndex} {t : TablePtr}
    {i : TableIndex} {level : PageTableLevel} (ht : pageSlot hhdm s.mem pml4 p = .table t)
    (hd : p.length ≤ 2)
    (hl : level ≠ .pt) (hemp : pageSlot hhdm s.mem pml4 (p ++ [i]) = .empty) :
    O.Keeps hhdm pml4 s₀ (linkNext A hhdm level t i s) := by
  obtain ⟨hpage, hframe, hnew, -⟩ := hs.next hlimit
  obtain ⟨-, -, hinv, hheld⟩ := O.alloc_page h.owns.inv hready hpage
  have hfresh : (A.pmmAlloc s.pmm).1 + hhdm ∉ pageTables hhdm s.mem pml4 := fun hmem =>
    hnew (hs.tables_used hmem)
  have htables : pageTables hhdm (linkNext A hhdm level t i s).mem pml4
      = insert ((A.pmmAlloc s.pmm).1 + hhdm) (pageTables hhdm s.mem pml4) := by
    refine tables_update_table (slotAt_linkNext hs.tree hframe hfresh ht hd hl hemp) fun u hu => ?_
    cases hemp.symm.trans hu
  have hgrown : ∀ u ∈ O.pointers hhdm s.pmm, u ∈ O.pointers hhdm (A.pmmAlloc s.pmm).2 := by
    intro u hu
    rw [pointers, hheld]
    exact .inr hu
  refine ⟨⟨hinv, ?_⟩, fun u hu hno => hgrown u (h.held u hu hno)⟩
  rw [htables]
  refine Set.insert_subset ?_ fun u hu => hgrown u (h.owns.tables hu)
  show _ ∈ O.pointers hhdm (A.pmmAlloc s.pmm).2
  rw [O.add_mem_pointers, hheld]
  exact Set.mem_insert _ _

/-- A write that leaves the tables as they are. -/
theorem keeps_storeEntry (h : O.Keeps hhdm pml4 s₀ s) {t : TablePtr} {i : TableIndex}
    {e : PageTableEntry}
    (htables : pageTables hhdm (s.storeEntry t i e).mem pml4 = pageTables hhdm s.mem pml4) :
    O.Keeps hhdm pml4 s₀ (s.storeEntry t i e) := by
  refine ⟨⟨h.owns.inv, ?_⟩, h.held⟩
  rw [htables]
  exact h.owns.tables

/-- **Unlinking a table** of the space gives back its page. -/
theorem keeps_unlink (h : O.Keeps hhdm pml4 s₀ s) {t c : TablePtr} {i : TableIndex}
    {e : PageTableEntry} (hc : c ∈ pageTables hhdm s.mem pml4)
    (hc₀ : c ∈ pageTables hhdm s₀.mem pml4)
    (htables : pageTables hhdm (s.storeEntry t i e).mem pml4
      = pageTables hhdm s.mem pml4 \ {c}) :
    O.Keeps hhdm pml4 s₀ ((s.storeEntry t i e).afterFree A (c - hhdm)) := by
  obtain ⟨hinv, hheld⟩ := O.free h.owns.inv (h.owns.tables hc)
  have hkept : ∀ u ∈ O.pointers hhdm s.pmm, u ≠ c →
      u ∈ O.pointers hhdm (A.pmmFree (c - hhdm) s.pmm) := by
    intro u hu hne
    rw [pointers, hheld]
    refine ⟨hu, fun heq => hne ?_⟩
    exact (BitVec.sub_left_inj hhdm).mp heq
  refine ⟨⟨hinv, ?_⟩, fun u hu hno => hkept u (h.held u hu hno) ?_⟩
  · show pageTables hhdm (s.storeEntry t i e).mem pml4 ⊆ _
    rw [htables]
    exact fun u hu => hkept u (h.owns.tables hu.1) hu.2
  · rintro rfl
    exact hno hc₀

/-- **Mapping a page** at a free slot under no leaf. -/
theorem confined_pagingMapPage (hw : hhdm.toNat + 2 ^ 40 ≤ 2 ^ 64) (h : O.Owns hhdm pml4 s)
    {size : PageSize} {virt phys flags : BitVec 64} (htree : Unshared (entrySlot hhdm) s.mem pml4)
    (havail : O.Available ((pagingMapPageWithoutTlbInvalidation A hhdm pml4 phys virt size flags
      s).2.allocs - s.allocs) s.pmm) (hf : LeafFlags size flags)
    (habove : ∀ q, q <+: tablePath size virt → (pageSlot hhdm s.mem pml4 q).leaf? = none)
    (hfree : pageSlot hhdm s.mem pml4 (pagePath size virt) = .empty) :
    O.Confined hhdm pml4 s
      (pagingMapPageWithoutTlbInvalidation A hhdm pml4 phys virt size flags s).2 := by
  have hstate : MapState A hhdm pml4 (pagingMapPageWithoutTlbInvalidation A hhdm pml4 phys virt
      size flags s).2.allocs (O.pointers hhdm s.pmm) s :=
    ⟨htree, h.tables, O.freshPages h.inv havail⟩
  set limit := (pagingMapPageWithoutTlbInvalidation A hhdm pml4 phys virt size flags s).2.allocs
    with hlimit
  -- The pages that are left are enough for the tables that are still to be linked in.
  have hkeeps : O.Keeps hhdm pml4 s (pagingMapPageWithoutTlbInvalidation A hhdm pml4 phys virt
      size flags s).2 := by
    refine (pagingMapPage_invariant
      (P := fun s' => O.Keeps hhdm pml4 s s' ∧ O.Available (limit - s'.allocs) s'.pmm) hw
      (fun used p t i level s₁ hs hle ht hd hl hemp hP => ?_)
      (fun t s₁ htree ht hemp hP => ⟨?_, hP.2⟩) hstate ⟨⟨h, fun _ ht _ => ht⟩, havail⟩
      hlimit.ge habove hfree).1
    · obtain ⟨hkeeps, hleft⟩ := hP
      rw [show limit - s₁.allocs = limit - (s₁.allocs + 1) + 1 by omega] at hleft
      obtain ⟨hready, -, hrest⟩ := hleft
      refine ⟨keeps_linkNext hkeeps hs hle hready ht hd hl hemp, ?_⟩
      rw [allocs_linkNext]
      exact hrest
    · refine keeps_storeEntry hP.1 (tables_update_of_not_table
        (slotAt_storeLeaf phys htree ht hf hemp) (fun u hu => ?_) fun u hu => by cases hu)
      cases hemp.symm.trans hu
  obtain ⟨used', s', hrun, hm⟩ := pagingMapPage_of_free hw hstate le_rfl hf habove hfree
  rw [hrun] at hkeeps ⊢
  exact ⟨hkeeps.owns, hm.frame, hm.tables_of_used, hkeeps.held⟩

/-- **Checking a table** keeps what a call keeps, whether it is unlinked or not. -/
theorem keeps_check {p r : List TableIndex} {i : TableIndex} {t c : TablePtr}
    (hkeeps : O.Keeps hhdm pml4 s s₁) (h : Unmapped hhdm pml4 p (r ++ [i]) s s₁)
    (hd : r.length ≤ 2) (ht : pageSlot hhdm s.mem pml4 r = .table t)
    (hc : pageSlot hhdm s.mem pml4 (r ++ [i]) = .table c) :
    O.Keeps hhdm pml4 s (pagingCheckForEmptyTable A hhdm c t i s₁) := by
  have ht₁ : pageSlot hhdm s₁.mem pml4 r = .table t := by
    rw [h.above r (List.prefix_append _ _), ht]
  have hc₁ : pageSlot hhdm s₁.mem pml4 (r ++ [i]) = .table c := by
    rw [h.above _ List.prefix_rfl, hc]
  have hempty := tableEmpty_iff_slots (by rw [List.length_append, List.length_singleton]; omega) hc₁
  unfold pagingCheckForEmptyTable
  by_cases he : tableEmpty c s₁ = true
  · rw [if_pos he]
    have hclear := Emptied.of_clear h.tree ht₁ (hempty.mp he)
    exact keeps_unlink hkeeps (mem_tables hc₁) (mem_tables hc)
      (tables_update_empty h.tree hclear.slotAt_eq hc₁)
  · rw [if_neg he]
    exact hkeeps

/-- Clearing a leaf leaves the tables as they are. -/
theorem tables_clear {r : List TableIndex} {i : TableIndex} {t : TablePtr} {e : PageTableEntry}
    (htree : Unshared (entrySlot hhdm) s.mem pml4) (ht : pageSlot hhdm s.mem pml4 r = .table t)
    (he : pageSlot hhdm s.mem pml4 (r ++ [i]) = .leaf e) :
    pageTables hhdm (s.storeEntry t i (s.mem t i).clearPresent).mem pml4
      = pageTables hhdm s.mem pml4 := by
  have hempty := Emptied.of_clear htree ht fun j =>
    slotAt_append_of_not_table (by simp) fun u hu => by cases he.symm.trans hu
  refine tables_update_of_not_table hempty.slotAt_eq (fun u hu => ?_) fun u hu => by cases hu
  cases he.symm.trans hu

/-- **Unmapping a leaf.** -/
theorem confined_pagingUnmapPage (h : O.Owns hhdm pml4 s) {size : PageSize} {virt : BitVec 64}
    {e : PageTableEntry} (htree : Unshared (entrySlot hhdm) s.mem pml4)
    (hne : NoEmptyTable hhdm pml4 [] s)
    (hleaf : pageSlot hhdm s.mem pml4 (pagePath size virt) = .leaf e) :
    O.Confined hhdm pml4 s (pagingUnmapPage A hhdm pml4 virt size s).2 := by
  have hup : ∃ s', pagingUnmapPage A hhdm pml4 virt size s = (.ok, s') ∧
      Unmapped hhdm pml4 (pagePath size virt) [] s s' ∧ O.Keeps hhdm pml4 s s' := by
    refine pagingUnmapPage_induction
      (P := fun r s' => Unmapped hhdm pml4 (pagePath size virt) r s s' ∧ O.Keeps hhdm pml4 s s')
      hleaf (fun r i t hpath ht => ?_) fun r i t c s₁ hd ht hc h₁ =>
        ⟨h₁.1.check hd ht hc, keeps_check h₁.2 h₁.1 hd ht hc⟩
    rw [hpath] at hleaf ⊢
    refine ⟨Unmapped.clear htree hne ht hleaf, keeps_storeEntry ⟨h, fun _ ht _ => ht⟩ ?_⟩
    exact tables_clear htree ht hleaf
  obtain ⟨s', hrun, hu, hkeeps⟩ := hup
  rw [hrun]
  refine ⟨hkeeps.owns, fun t _ ht => hu.frame t ht, fun t _ ht => ?_, hkeeps.held⟩
  obtain ⟨q, hq⟩ := ht
  exact mem_tables (hu.tables q t hq)

/-- **The step**: an admissible call, as long as there are pages for it. -/
theorem confined_exec (hw : hhdm.toNat + 2 ^ 40 ≤ 2 ^ 64) (h : O.Owns hhdm pml4 s)
    (hr : Represents hhdm pml4 s M) {c : PagingCall} (hc : c.Admissible M)
    (havail : O.Available ((c.exec A hhdm pml4 s).2.allocs - s.allocs) s.pmm) :
    O.Confined hhdm pml4 s (c.exec A hhdm pml4 s).2 := by
  cases c with
  | map phys v size flags =>
    obtain ⟨⟨hv, -, hflags⟩, hcase⟩ := hc
    rcases hcase with hapart | hmapped
    · obtain ⟨habove, hfree⟩ := hr.free_of_apart hv hapart
      exact confined_pagingMapPage hw h hr.tree havail hflags habove hfree
    · obtain ⟨phys', hM⟩ := Option.ne_none_iff_exists'.mp hmapped
      obtain ⟨e, he, -⟩ := hr.leaf_of_mapped hv hM
      have hsame : PagingCall.exec A hhdm pml4 (.map phys v size flags) s = (.error, s) :=
        pagingMapPage_of_occupied phys flags (by rw [he]; simp)
      rw [hsame]
      exact h.confined rfl rfl
  | unmap v size =>
    obtain ⟨hv, hcase⟩ := hc
    rcases hcase with hapart | hmapped
    · obtain ⟨habove, hfree⟩ := hr.free_of_apart hv hapart
      obtain ⟨hmem, hpmm⟩ := pagingUnmapPage_of_free (A := A) hr.nonempty habove hfree
      exact h.confined hmem hpmm
    · obtain ⟨phys', hM⟩ := Option.ne_none_iff_exists'.mp hmapped
      obtain ⟨e, he, -⟩ := hr.leaf_of_mapped hv hM
      exact confined_pagingUnmapPage h hr.tree hr.nonempty he

end PageOwner

/-! ## Several spaces -/

/-- The tables of a space and what they represent depend on the tables' contents. -/
theorem pageSlot_congr (h : ∀ t ∈ pageTables hhdm s.mem pml4, s'.mem t = s.mem t) :
    slotAt (entrySlot hhdm) s'.mem pml4 = slotAt (entrySlot hhdm) s.mem pml4 :=
  slotAt_congr_of_eqOn h

theorem pageTables_congr (h : ∀ t ∈ pageTables hhdm s.mem pml4, s'.mem t = s.mem t) :
    pageTables hhdm s'.mem pml4 = pageTables hhdm s.mem pml4 := by
  unfold pageTables tables
  rw [pageSlot_congr h]

theorem Represents.congr (hr : Represents hhdm pml4 s M)
    (h : ∀ t ∈ pageTables hhdm s.mem pml4, s'.mem t = s.mem t) : Represents hhdm pml4 s' M := by
  have hslots := pageSlot_congr h
  refine ⟨?_, ?_, ?_, hr.canonical⟩
  · unfold Unshared
    rw [hslots]
    exact hr.tree
  · unfold NoEmptyTable pageSlot
    rw [hslots]
    exact hr.nonempty
  · unfold pageSlot
    rw [hslots]
    exact hr.leaves

variable {ι : Type} {root : ι → TablePtr} {Ms : ι → AddressMap}

/-- **The address spaces are in order**: each represents its map, their tables are held,
and no two of them have a table in common. -/
structure PageOwner.Spaces (O : PageOwner A) (hhdm : BitVec 64) (root : ι → TablePtr)
    (s : Machine σ) (Ms : ι → AddressMap) : Prop where
  inv : O.Inv s.pmm
  represents : ∀ j, Represents hhdm (root j) s (Ms j)
  tables : ∀ j, pageTables hhdm s.mem (root j) ⊆ O.pointers hhdm s.pmm
  disjoint : ∀ i j, i ≠ j →
    Disjoint (pageTables hhdm s.mem (root i)) (pageTables hhdm s.mem (root j))

namespace PageOwner.Spaces

variable {O}

/-- Spaces with all-zero PML4s, each of which is held. -/
theorem start (hinv : O.Inv s.pmm) (hroot : Function.Injective root)
    (hheld : ∀ j, root j ∈ O.pointers hhdm s.pmm) (hzero : ∀ j i, s.mem (root j) i = 0#64) :
    O.Spaces hhdm root s fun _ _ => none := by
  have htables : ∀ j, pageTables hhdm s.mem (root j) = {root j} := fun j =>
    tables_eq_root_of_empty (entrySlot_of_zero (hzero j) 0)
  refine ⟨hinv, fun j => Represents.start (hzero j), fun j => ?_, fun i j hij => ?_⟩
  · rw [htables]
    exact Set.singleton_subset_iff.mpr (hheld j)
  · rw [htables, htables]
    exact Set.disjoint_singleton.mpr (hroot.ne hij)

theorem owns (h : O.Spaces hhdm root s Ms) (j : ι) : O.Owns hhdm (root j) s :=
  ⟨h.inv, h.tables j⟩

/-- A change that leaves the memory as it is, and the tables held. -/
theorem of_mem_eq (h : O.Spaces hhdm root s Ms) (hinv : O.Inv s'.pmm) (hmem : s'.mem = s.mem)
    (hheld : ∀ j, pageTables hhdm s.mem (root j) ⊆ O.pointers hhdm s'.pmm) :
    O.Spaces hhdm root s' Ms := by
  refine ⟨hinv, fun j => (h.represents j).of_mem_eq hmem, ?_, ?_⟩
  · rw [hmem]
    exact hheld
  · rw [hmem]
    exact h.disjoint

variable [DecidableEq ι]

/-- **A call on one space** does to its map what it says, and nothing to the others. -/
theorem exec (hw : hhdm.toNat + 2 ^ 40 ≤ 2 ^ 64) (h : O.Spaces hhdm root s Ms) (j : ι)
    {c : PagingCall} (hc : c.Admissible (Ms j))
    (havail : O.Available ((c.exec A hhdm (root j) s).2.allocs - s.allocs) s.pmm) :
    O.Spaces hhdm root (c.exec A hhdm (root j) s).2 (Function.update Ms j (c.apply (Ms j))) := by
  have hconfined := confined_exec hw (h.owns j) (h.represents j) hc havail
  have hfresh : FreshBetween A hhdm (pageTables hhdm s.mem (root j)) s
      (c.exec A hhdm (root j) s).2 :=
    ⟨(O.freshPages h.inv havail).anti (h.tables j)⟩
  have hnew := (h.represents j).exec hw hc hfresh
  set s' := (c.exec A hhdm (root j) s).2
  -- The tables of another space are held, and not the ones of this.
  have hother : ∀ i, i ≠ j → ∀ t ∈ pageTables hhdm s.mem (root i),
      t ∈ O.pointers hhdm s.pmm ∧ t ∉ pageTables hhdm s.mem (root j) := fun i hij t ht =>
    ⟨h.tables i ht, Set.disjoint_left.mp (h.disjoint i j hij) ht⟩
  have hframe : ∀ i, i ≠ j → ∀ t ∈ pageTables hhdm s.mem (root i), s'.mem t = s.mem t :=
    fun i hij t ht => hconfined.frame t (hother i hij t ht).1 (hother i hij t ht).2
  have hsame : ∀ i, i ≠ j → pageTables hhdm s'.mem (root i) = pageTables hhdm s.mem (root i) :=
    fun i hij => pageTables_congr (hframe i hij)
  have happart : ∀ i, i ≠ j →
      Disjoint (pageTables hhdm s'.mem (root i)) (pageTables hhdm s'.mem (root j)) := by
    intro i hij
    rw [hsame i hij]
    refine Set.disjoint_left.mpr fun t ht hmem => ?_
    exact (hother i hij t ht).2 (hconfined.tables t (h.tables i ht) hmem)
  refine ⟨hconfined.owns.inv, fun i => ?_, fun i => ?_, fun i k hik => ?_⟩
  · by_cases hij : i = j
    · subst hij
      rw [Function.update_self]
      exact hnew
    · rw [Function.update_of_ne hij]
      exact (h.represents i).congr (hframe i hij)
  · by_cases hij : i = j
    · subst hij
      exact hconfined.owns.tables
    · rw [hsame i hij]
      exact fun t ht => hconfined.held t (hother i hij t ht).1 (hother i hij t ht).2
  · by_cases hij : i = j
    · subst hij
      exact (happart k (Ne.symm hik)).symm
    · by_cases hkj : k = j
      · subst hkj
        exact happart i hij
      · rw [hsame i hij, hsame k hkj]
        exact h.disjoint i k hik

end PageOwner.Spaces

/-- **A run of the kernel** over its address spaces: admissible calls on any of them, as
long as there are pages for their tables, and pages taken and given back by others. -/
inductive SpaceRun [DecidableEq ι] (O : PageOwner A) (hhdm : BitVec 64) (root : ι → TablePtr)
    (s₀ : Machine σ) : Machine σ → (ι → AddressMap) → Prop
  | start : SpaceRun O hhdm root s₀ s₀ fun _ _ => none
  /-- A call on the space `j`. -/
  | call {s : Machine σ} {Ms : ι → AddressMap} (j : ι) (c : PagingCall)
      (h : SpaceRun O hhdm root s₀ s Ms) (hc : c.Admissible (Ms j))
      (havail : O.Available ((c.exec A hhdm (root j) s).2.allocs - s.allocs) s.pmm) :
      SpaceRun O hhdm root s₀ (c.exec A hhdm (root j) s).2
        (Function.update Ms j (c.apply (Ms j)))
  /-- `pmm_alloc`, with or without a page. -/
  | alloc {s : Machine σ} {Ms : ι → AddressMap} (h : SpaceRun O hhdm root s₀ s Ms)
      (hready : O.Ready s.pmm) : SpaceRun O hhdm root s₀ (s.afterAlloc A) Ms
  /-- `pmm_free` of a page that is held and is no table. -/
  | free {s : Machine σ} {Ms : ι → AddressMap} (page : BitVec 64)
      (h : SpaceRun O hhdm root s₀ s Ms) (hpage : page ∈ O.held s.pmm)
      (hno : ∀ j, page + hhdm ∉ pageTables hhdm s.mem (root j)) :
      SpaceRun O hhdm root s₀ (s.afterFree A page) Ms

variable {O}

/-- A mapping needs three pages at most. -/
theorem SpaceRun.map [DecidableEq ι] (h : SpaceRun O hhdm root s₀ s Ms) (j : ι)
    {phys virt flags : BitVec 64} {size : PageSize}
    (hc : (PagingCall.map phys virt size flags).Admissible (Ms j))
    (havail : O.Available 3 s.pmm) :
    SpaceRun O hhdm root s₀ ((PagingCall.map phys virt size flags).exec A hhdm (root j) s).2
      (Function.update Ms j ((PagingCall.map phys virt size flags).apply (Ms j))) := by
  refine h.call j _ hc (havail.mono (Nat.sub_le_iff_le_add'.mpr ?_))
  exact (allocs_pagingMapPage phys virt size flags s).2

/-- **After every run the address spaces are in order.** -/
theorem SpaceRun.spaces [DecidableEq ι] (hw : hhdm.toNat + 2 ^ 40 ≤ 2 ^ 64)
    (hstart : O.Spaces hhdm root s₀ fun _ _ => none) (h : SpaceRun O hhdm root s₀ s Ms) :
    O.Spaces hhdm root s Ms := by
  induction h with
  | start => exact hstart
  | call j c _ hc havail ih => exact ih.exec hw j hc havail
  | @alloc s Ms _ hready ih =>
    by_cases hpage : (A.pmmAlloc s.pmm).1 = 0#64
    · obtain ⟨hinv, hheld⟩ := O.alloc_null ih.inv hready hpage
      refine ih.of_mem_eq (show O.Inv (s.afterAlloc A).pmm from hinv) rfl fun j => ?_
      show _ ⊆ O.pointers hhdm (A.pmmAlloc s.pmm).2
      rw [PageOwner.pointers, hheld]
      exact ih.tables j
    · obtain ⟨-, -, hinv, hheld⟩ := O.alloc_page ih.inv hready hpage
      refine ih.of_mem_eq (show O.Inv (s.afterAlloc A).pmm from hinv) rfl fun j t ht => ?_
      show t - hhdm ∈ O.held (A.pmmAlloc s.pmm).2
      rw [hheld]
      exact .inr (ih.tables j ht)
  | @free s Ms page _ hpage hno ih =>
    obtain ⟨hinv, hheld⟩ := O.free ih.inv hpage
    refine ih.of_mem_eq (show O.Inv (s.afterFree A page).pmm from hinv) rfl fun j t ht => ?_
    show t - hhdm ∈ O.held (A.pmmFree page s.pmm)
    rw [hheld]
    refine ⟨ih.tables j ht, ?_⟩
    rintro rfl
    exact hno j (by rwa [BitVec.sub_add_cancel])
