import Joes.PagingUnmap
import Mathlib.Order.CompletePartialOrder

/-!
# Page tables refine a partial map

What a page table is for is a partial map from virtual pages to physical
addresses: mapping a page inserts, unmapping deletes, and an address resolves
to what its page is mapped to. Here that is `AddressMap`, a function on
`VirtualPage` – a page size and a page number – and `PagingCall.apply` is what
a call does to it.

The tables represent the map (`Represents`) when they form a tree without
empty tables whose leaves are the map's entries. A call that keeps off the
other leaves – its range is disjoint from every mapped page, or is a mapped
page (`Admissible`) – preserves that, so it holds after every sequence of such
calls (`PagingRun`), and `pagingRun_refines` reads off what the results and
the resolved addresses are.
-/

open PageTableEntry RadixHeap

/-- A virtual page: a size, and the bits of its addresses above the offset in
the page. -/
structure VirtualPage where
  size : PageSize
  number : BitVec 64
  deriving DecidableEq

namespace VirtualPage

/-- The page of a size an address lies in. -/
def of (size : PageSize) (virt : BitVec 64) : VirtualPage := ⟨size, virt >>> size.shift⟩

/-- The addresses of a page. -/
def range (p : VirtualPage) : Set (BitVec 64) :=
  {v | Canonical v ∧ v >>> p.size.shift = p.number}

theorem mem_range_of {size : PageSize} {v : BitVec 64} (hv : Canonical v) :
    v ∈ (of size v).range := ⟨hv, rfl⟩

/-- The page an address of `p` lies in is `p`. -/
theorem eq_of_mem_range {p : VirtualPage} {v : BitVec 64} (h : v ∈ p.range) :
    of p.size v = p := by
  rw [of, h.2]

/-- Pages of canonical addresses are told apart by their paths. -/
theorem of_eq_of_iff {size size' : PageSize} {u v : BitVec 64} (hu : Canonical u)
    (hv : Canonical v) : of size u = of size' v ↔ pagePath size u = pagePath size' v := by
  constructor
  · intro h
    obtain ⟨rfl, hnum⟩ := VirtualPage.mk.inj h
    exact (pagePath_eq_iff hu hv).mpr hnum
  · intro h
    have hlen := congrArg List.length h
    rw [length_pagePath, length_pagePath] at hlen
    obtain rfl : size = size' := by
      cases size <;> cases size' <;> first | rfl | simp [PageSize.pathLength] at hlen
    rw [of, of, (pagePath_eq_iff hu hv).mp h]

end VirtualPage

/-- **The abstract page table**: which virtual pages are mapped, and to which
physical address. -/
abbrev AddressMap := VirtualPage → Option (BitVec 64)

/-- A call of the paging module's interface. -/
inductive PagingCall where
  /-- `paging_map_page` -/
  | map (phys virt : BitVec 64) (size : PageSize) (flags : BitVec 64)
  /-- `paging_unmap_page` -/
  | unmap (virt : BitVec 64) (size : PageSize)

namespace PagingCall

/-- The page a call is about. -/
def page : PagingCall → VirtualPage
  | map _ virt size _ => .of size virt
  | unmap virt size => .of size virt

/-- What the call does to the abstract page table: insert where nothing is
mapped, or delete. -/
def apply (c : PagingCall) (M : AddressMap) : AddressMap :=
  match c with
  | map phys virt size _ =>
    if M (.of size virt) = none then Function.update M (.of size virt) (some phys) else M
  | unmap virt size => Function.update M (.of size virt) none

/-- What the call does to the machine. -/
def exec {σ : Type} (A : PageAllocator σ) (hhdm : BitVec 64) (pml4 : TablePtr) (c : PagingCall)
    (s : Machine σ) : PagingErrorCode × Machine σ :=
  match c with
  | map phys virt size flags => pagingMapPage A hhdm pml4 phys virt size flags s
  | unmap virt size => pagingUnmapPage A hhdm pml4 virt size s

/-- The arguments of a call are what the interface asks for: a canonical
address and, to be mapped, a frame of the size with flags that make a leaf. -/
def WellFormed : PagingCall → Prop
  | map phys virt size flags => Canonical virt ∧ IsFrame size phys ∧ LeafFlags size flags
  | unmap virt _ => Canonical virt

/-- The range of the call is disjoint from every mapped page. -/
def Apart (c : PagingCall) (M : AddressMap) : Prop :=
  ∀ p, M p ≠ none → Disjoint p.range c.page.range

/-- **An admissible call**: well-formed, and its range is disjoint from every
mapped page or is a mapped page. -/
def Admissible (c : PagingCall) (M : AddressMap) : Prop :=
  c.WellFormed ∧ (c.Apart M ∨ M c.page ≠ none)

end PagingCall

variable {σ : Type} {A : PageAllocator σ} {hhdm : BitVec 64} {pml4 : TablePtr}
variable {s s₀ : Machine σ} {M : AddressMap}

/-- **The tables represent the map**: they form a tree without empty tables,
and its leaves are the map's entries. -/
structure Represents (hhdm : BitVec 64) (pml4 : TablePtr) (s : Machine σ) (M : AddressMap) :
    Prop where
  tree : Unshared (entrySlot hhdm) s.mem pml4
  nonempty : NoEmptyTable hhdm pml4 [] s
  leaves : ∀ size v, Canonical v → M (.of size v)
    = (pageSlot hhdm s.mem pml4 (pagePath size v)).leaf?.map (pageBase size)
  /-- Only pages of canonical addresses are mapped. -/
  canonical : ∀ p, M p ≠ none → ∃ v, Canonical v ∧ p = .of p.size v

/-- **A run of the paging module**: admissible calls one after the other, each
of which gets pages from `pmm_alloc` that are not in use as tables. -/
inductive PagingRun (A : PageAllocator σ) (hhdm : BitVec 64) (pml4 : TablePtr) (s₀ : Machine σ) :
    Machine σ → AddressMap → Prop
  | start : PagingRun A hhdm pml4 s₀ s₀ fun _ => none
  | call {s : Machine σ} {M : AddressMap} (c : PagingCall) (h : PagingRun A hhdm pml4 s₀ s M)
      (hc : c.Admissible M)
      (hfresh : FreshBetween A hhdm (pageTables hhdm s.mem pml4) s (c.exec A hhdm pml4 s).2) :
      PagingRun A hhdm pml4 s₀ (c.exec A hhdm pml4 s).2 (c.apply M)

/-! ## What lies on and below the path of a page -/

/-- A leaf above the table of a page is the leaf of a larger page at the same
address. -/
theorem exists_size_of_leaf_above {size : PageSize} {v : BitVec 64} {q : List TableIndex}
    {e : PageTableEntry} (hq : q <+: tablePath size v)
    (he : pageSlot hhdm s.mem pml4 q = .leaf e) : ∃ size', q = pagePath size' v := by
  have hlen : 2 ≤ q.length := by
    rcases List.eq_nil_or_concat' q with rfl | ⟨q, i, rfl⟩
    · cases he
    · obtain ⟨-, -, h1, -⟩ := entry_of_pageSlot_leaf he
      rw [List.length_append, List.length_singleton]
      omega
  rw [List.prefix_iff_eq_take] at hq
  have hle : q.length ≤ (tablePath size v).length := by
    rw [hq, List.length_take]
    omega
  -- a path of two indices is that of a 1 GB page, one of three that of a 2 MB page
  cases size with
  | gb1 =>
    have h1 : q.length ≤ 1 := hle
    omega
  | mb2 =>
    have h2 : q.length ≤ 2 := hle
    obtain hq' : q.length = 2 := by omega
    exact ⟨.gb1, by rw [hq, hq']; rfl⟩
  | kb4 =>
    have h3 : q.length ≤ 3 := hle
    obtain hq' | hq' : q.length = 2 ∨ q.length = 3 := by omega
    · exact ⟨.gb1, by rw [hq, hq']; rfl⟩
    · exact ⟨.mb2, by rw [hq, hq']; rfl⟩

/-- **Without empty tables, there is a leaf below every table** but the
PML4. -/
theorem exists_leaf_below (hne : NoEmptyTable hhdm pml4 [] s) {p : List TableIndex}
    {t : TablePtr} (hp : p ≠ []) (ht : pageSlot hhdm s.mem pml4 p = .table t) :
    ∃ r e, pageSlot hhdm s.mem pml4 (p ++ r) = .leaf e := by
  have hle := length_le_of_pageSlot_table ht
  -- by the number of levels left below the table
  induction hk : 3 - p.length generalizing p t with
  | zero =>
    obtain ⟨i, hi⟩ := hne p t hp hp ht
    cases hs : pageSlot hhdm s.mem pml4 (p ++ [i]) with
    | empty => exact absurd hs hi
    | leaf e => exact ⟨[i], e, hs⟩
    | table c =>
      have hle' := length_le_of_pageSlot_table hs
      rw [List.length_append, List.length_singleton] at hle'
      omega
  | succ k ih =>
    obtain ⟨i, hi⟩ := hne p t hp hp ht
    cases hs : pageSlot hhdm s.mem pml4 (p ++ [i]) with
    | empty => exact absurd hs hi
    | leaf e => exact ⟨[i], e, hs⟩
    | table c =>
      have hlen : (p ++ [i]).length = p.length + 1 := by
        rw [List.length_append, List.length_singleton]
      obtain ⟨r, e, he⟩ := ih (by simp) hs (length_le_of_pageSlot_table hs) (by omega)
      exact ⟨i :: r, e, by rwa [List.append_cons]⟩

/-- The shorter path of an address is a prefix of the longer one. -/
theorem pagePath_eq_take (size : PageSize) (v : BitVec 64) :
    pagePath size v = (pagePath .kb4 v).take size.pathLength := by
  cases size <;> rfl

/-- A leaf is the leaf of a page. -/
theorem exists_page_of_leaf {p : List TableIndex} {e : PageTableEntry}
    (he : pageSlot hhdm s.mem pml4 p = .leaf e) :
    ∃ size v, Canonical v ∧ pagePath size v = p := by
  have hsize : ∃ size : PageSize, p.length = size.pathLength := by
    rcases List.eq_nil_or_concat' p with rfl | ⟨q, i, rfl⟩
    · cases he
    · obtain ⟨-, -, h1, h3, -⟩ := entry_of_pageSlot_leaf he
      rw [List.length_append, List.length_singleton]
      obtain hq | hq | hq : q.length = 1 ∨ q.length = 2 ∨ q.length = 3 := by omega
      · exact ⟨.gb1, by rw [hq]; rfl⟩
      · exact ⟨.mb2, by rw [hq]; rfl⟩
      · exact ⟨.kb4, by rw [hq]; rfl⟩
  obtain ⟨size, hlen⟩ := hsize
  obtain ⟨v, hv, hpath⟩ := exists_pagePath_eq hlen
  exact ⟨size, v, hv, hpath⟩

/-- A leaf below the path of a page is the leaf of a page inside it. -/
theorem exists_page_of_leaf_below {size : PageSize} {v : BitVec 64} {r : List TableIndex}
    {e : PageTableEntry} (he : pageSlot hhdm s.mem pml4 (pagePath size v ++ r) = .leaf e) :
    ∃ size' u, Canonical u ∧ pagePath size' u = pagePath size v ++ r
      ∧ pagePath size u = pagePath size v := by
  obtain ⟨size', u, hu, hpath⟩ := exists_page_of_leaf he
  refine ⟨size', u, hu, hpath, ?_⟩
  have hlen : (pagePath size v ++ r).length = size'.pathLength := by
    rw [← hpath, length_pagePath]
  have hle : size.pathLength ≤ size'.pathLength := by
    rw [← hlen, List.length_append, length_pagePath]
    omega
  calc pagePath size u = (pagePath .kb4 u).take size.pathLength := pagePath_eq_take size u
    _ = (pagePath size' u).take size.pathLength := by
      rw [pagePath_eq_take size' u, List.take_take, Nat.min_eq_left hle]
    _ = (pagePath size v ++ r).take size.pathLength := by rw [hpath]
    _ = pagePath size v := by rw [← length_pagePath size v, List.take_left']; rfl

namespace Represents

/-- Where the tables have a leaf, the map has an entry. -/
theorem mapped_of_leaf (h : Represents hhdm pml4 s M) {size : PageSize} {v : BitVec 64}
    (hv : Canonical v) {e : PageTableEntry}
    (he : pageSlot hhdm s.mem pml4 (pagePath size v) = .leaf e) :
    M (.of size v) = some (e.pageBase size) := by
  rw [h.leaves size v hv, he]
  rfl

/-- Where the map has an entry, the tables have a leaf with that base. -/
theorem leaf_of_mapped (h : Represents hhdm pml4 s M) {size : PageSize} {v : BitVec 64}
    (hv : Canonical v) {phys : BitVec 64} (hM : M (.of size v) = some phys) :
    ∃ e, pageSlot hhdm s.mem pml4 (pagePath size v) = .leaf e ∧ e.pageBase size = phys := by
  rw [h.leaves size v hv, Option.map_eq_some_iff] at hM
  obtain ⟨e, he, hbase⟩ := hM
  exact ⟨e, Slot.leaf?_eq_some.mp he, hbase⟩

/-- **A page apart from all mapped pages** has no leaf above it and a free
slot. -/
theorem free_of_apart (h : Represents hhdm pml4 s M) {size : PageSize} {v : BitVec 64}
    (hv : Canonical v)
    (hapart : ∀ p, M p ≠ none → Disjoint p.range (VirtualPage.of size v).range) :
    (∀ q, q <+: tablePath size v → (pageSlot hhdm s.mem pml4 q).leaf? = none)
      ∧ pageSlot hhdm s.mem pml4 (pagePath size v) = .empty := by
  -- a mapped page with an address in common would not be apart
  have hno : ∀ size' u, Canonical u → M (.of size' u) ≠ none →
      u ∉ (VirtualPage.of size v).range := by
    intro size' u hu hM hmem
    exact Set.disjoint_left.mp (hapart _ hM) (VirtualPage.mem_range_of hu) hmem
  constructor
  · intro q hq
    by_contra hne
    obtain ⟨e, he⟩ := Option.ne_none_iff_exists'.mp hne
    have hleaf := Slot.leaf?_eq_some.mp he
    obtain ⟨size', rfl⟩ := exists_size_of_leaf_above hq hleaf
    exact hno size' v hv (by rw [h.mapped_of_leaf hv hleaf]; simp) (VirtualPage.mem_range_of hv)
  · cases hs : pageSlot hhdm s.mem pml4 (pagePath size v) with
    | empty => rfl
    | leaf e =>
      exact absurd (VirtualPage.mem_range_of hv)
        (hno size v hv (by rw [h.mapped_of_leaf hv hs]; simp))
    | table t =>
      obtain ⟨r, e, he⟩ := exists_leaf_below h.nonempty (pagePath_ne_nil size v) hs
      obtain ⟨size', u, hu, hpath, hsame⟩ := exists_page_of_leaf_below he
      have hmem : u ∈ (VirtualPage.of size v).range :=
        ⟨hu, (pagePath_eq_iff hu hv).mp hsame⟩
      exact absurd hmem (hno size' u hu (by rw [h.mapped_of_leaf hu (hpath ▸ he)]; simp))

/-- A page apart from all mapped pages is not mapped. -/
theorem eq_none_of_apart (h : Represents hhdm pml4 s M) {size : PageSize} {v : BitVec 64}
    (hv : Canonical v)
    (hapart : ∀ p, M p ≠ none → Disjoint p.range (VirtualPage.of size v).range) :
    M (.of size v) = none := by
  rw [h.leaves size v hv, (h.free_of_apart hv hapart).2]
  rfl

/-- The map is that of the tables' contents. -/
theorem of_mem_eq (h : Represents hhdm pml4 s M) (hmem : s'.mem = s.mem) :
    Represents hhdm pml4 s' M := by
  refine ⟨?_, ?_, ?_, h.canonical⟩
  · rw [hmem]
    exact h.tree
  · unfold NoEmptyTable
    rw [hmem]
    exact h.nonempty
  · rw [hmem]
    exact h.leaves

/-- **An all-zero PML4** represents the empty map. -/
theorem start (hzero : ∀ i, s.mem pml4 i = 0#64) : Represents hhdm pml4 s fun _ => none := by
  have hroot : ∀ i, entrySlot hhdm 0 (s.mem pml4 i) = .empty := entrySlot_of_zero hzero 0
  have hempty : ∀ p, p ≠ [] → pageSlot hhdm s.mem pml4 p = .empty := fun p hp =>
    slotAt_eq_empty_of_root hroot hp
  refine ⟨unshared_of_root_empty hroot, ?_, ?_, fun p hp => absurd rfl hp⟩
  · intro p t hp _ ht
    cases (hempty p hp).symm.trans ht
  · intro size v _
    rw [hempty _ (pagePath_ne_nil size v)]
    rfl

/-- **Mapping a page apart from the mapped ones** inserts it. -/
theorem map (h : Represents hhdm pml4 s M) {size : PageSize} {v phys : BitVec 64}
    {e : PageTableEntry} {used used' : Set TablePtr} {limit : ℕ} (hv : Canonical v)
    (hm : Mapped A hhdm pml4 limit (pagePath size v) e used s used' s')
    (hbase : e.pageBase size = phys) :
    Represents hhdm pml4 s' (Function.update M (.of size v) (some phys)) := by
  -- a slot that was in use still is
  have hkeep : ∀ q, pageSlot hhdm s.mem pml4 q ≠ .empty → pageSlot hhdm s'.mem pml4 q ≠ .empty := by
    intro q hq
    by_cases hqp : q = pagePath size v
    · rw [hqp, hm.leaf]
      simp
    · rcases hm.slots q hqp with hsame | ⟨hemp, -⟩
      · rwa [hsame]
      · exact absurd hemp hq
  refine ⟨hm.state.tree, ?_, ?_, ?_⟩
  · intro q t hq _ ht
    have hqp : q ≠ pagePath size v := by
      rintro rfl
      cases hm.leaf.symm.trans ht
    rcases hm.slots q hqp with hsame | ⟨-, ⟨r, hr⟩, -⟩
    · obtain ⟨i, hi⟩ := h.nonempty q t hq hq (hsame ▸ ht)
      exact ⟨i, hkeep _ hi⟩
    · -- a new table lies on the path of the leaf, and holds the next step of it
      cases r with
      | nil => exact absurd (by rw [← hr, List.append_nil]) hqp
      | cons i r =>
        rw [List.append_cons] at hr
        refine ⟨i, fun hemp => ?_⟩
        have hleaf := hm.leaf
        rw [← hr] at hleaf
        by_cases hnil : r = []
        · rw [hnil, List.append_nil, hemp] at hleaf
          cases hleaf
        · have hbelow := slotAt_append_of_not_table hnil (fun u hu => by
            cases hemp.symm.trans hu)
          cases hbelow.symm.trans hleaf
  · intro size' u hu
    by_cases hpage : VirtualPage.of size' u = .of size v
    · have hpath := (VirtualPage.of_eq_of_iff hu hv).mp hpage
      obtain ⟨rfl, -⟩ := VirtualPage.mk.inj hpage
      rw [hpage, Function.update_self, hpath, hm.leaf, ← hbase]
      rfl
    · have hpath : pagePath size' u ≠ pagePath size v := fun heq =>
        hpage ((VirtualPage.of_eq_of_iff hu hv).mpr heq)
      rw [Function.update_of_ne hpage, h.leaves size' u hu]
      rcases hm.slots _ hpath with hsame | ⟨hemp, -, c, hc⟩
      · rw [hsame]
      · rw [hemp, hc]
        rfl
  · intro p hp
    by_cases hpage : p = .of size v
    · exact ⟨v, hv, by rw [hpage]; rfl⟩
    · rw [Function.update_of_ne hpage] at hp
      exact h.canonical p hp

/-- **Unmapping a mapped page** deletes it. -/
theorem unmap (h : Represents hhdm pml4 s M) {size : PageSize} {v : BitVec 64} (hv : Canonical v)
    (hu : Unmapped hhdm pml4 (pagePath size v) [] s s') :
    Represents hhdm pml4 s' (Function.update M (.of size v) none) := by
  refine ⟨hu.tree, hu.nonempty, ?_, ?_⟩
  · intro size' u hcan
    rw [hu.leaves]
    by_cases hpage : VirtualPage.of size' u = .of size v
    · rw [hpage, Function.update_self, if_pos ((VirtualPage.of_eq_of_iff hcan hv).mp hpage)]
      rfl
    · rw [Function.update_of_ne hpage, h.leaves size' u hcan, if_neg]
      exact fun heq => hpage ((VirtualPage.of_eq_of_iff hcan hv).mpr heq)
  · intro p hp
    by_cases hpage : p = .of size v
    · exact absurd (by rw [hpage, Function.update_self]) hp
    · rw [Function.update_of_ne hpage] at hp
      exact h.canonical p hp

/-- **The step**: an admissible call does to the map what it says. -/
theorem exec (hw : hhdm.toNat + 2 ^ 40 ≤ 2 ^ 64) (h : Represents hhdm pml4 s M) {c : PagingCall}
    (hc : c.Admissible M)
    (hfresh : FreshBetween A hhdm (pageTables hhdm s.mem pml4) s (c.exec A hhdm pml4 s).2) :
    Represents hhdm pml4 (c.exec A hhdm pml4 s).2 (c.apply M) := by
  cases c with
  | map phys v size flags =>
    obtain ⟨⟨hv, hframe, hflags⟩, hcase⟩ := hc
    show Represents hhdm pml4
      (pagingMapPageWithoutTlbInvalidation A hhdm pml4 phys v size flags s).2
      (if M (.of size v) = none then Function.update M (.of size v) (some phys) else M)
    rcases hcase with hapart | hmapped
    · obtain ⟨habove, hfree⟩ := h.free_of_apart hv hapart
      obtain ⟨used', s', hrun, hm⟩ := pagingMapPage_of_free hw
        ⟨h.tree, subset_rfl, hfresh.pages⟩ le_rfl hflags habove hfree
      rw [hrun, if_pos (h.eq_none_of_apart hv hapart)]
      exact h.map hv hm (pageBase_pagingCreateEntry hframe flags)
    · replace hmapped : M (.of size v) ≠ none := hmapped
      obtain ⟨phys', hM⟩ := Option.ne_none_iff_exists'.mp hmapped
      obtain ⟨e, he, -⟩ := h.leaf_of_mapped hv hM
      rw [pagingMapPage_of_occupied phys flags (by rw [he]; simp), if_neg hmapped]
      exact h
  | unmap v size =>
    obtain ⟨hv, hcase⟩ := hc
    show Represents hhdm pml4 (pagingUnmapPage A hhdm pml4 v size s).2
      (Function.update M (.of size v) none)
    rcases hcase with hapart | hmapped
    · obtain ⟨habove, hfree⟩ := h.free_of_apart hv hapart
      have hsame : Function.update M (.of size v) none = M :=
        Function.update_eq_self_iff.mpr (h.eq_none_of_apart hv hapart).symm
      rw [hsame]
      exact h.of_mem_eq (pagingUnmapPage_of_free h.nonempty habove hfree).1
    · obtain ⟨phys', hM⟩ := Option.ne_none_iff_exists'.mp hmapped
      obtain ⟨e, he, -⟩ := h.leaf_of_mapped hv hM
      obtain ⟨s', hrun, hu⟩ := pagingUnmapPage_of_leaf (A := A) h.tree h.nonempty he
      rw [hrun]
      exact h.unmap hv hu

/-- A canonical address in a mapped page resolves to where the page is
mapped. -/
theorem resolve_of_mapped (h : Represents hhdm pml4 s M) {p : VirtualPage} {phys v : BitVec 64}
    (hM : M p = some phys) (hv : v ∈ p.range) :
    pagingResolveVirtualAddress hhdm pml4 v s = phys := by
  rw [← VirtualPage.eq_of_mem_range hv] at hM
  obtain ⟨e, he, hbase⟩ := h.leaf_of_mapped hv.1 hM
  rw [pagingResolveVirtualAddress_of_leaf he, hbase]

/-- A canonical address in no mapped page resolves to 0. -/
theorem resolve_of_not_mapped (h : Represents hhdm pml4 s M) {v : BitVec 64} (hv : Canonical v)
    (hno : ∀ p, M p ≠ none → v ∉ p.range) : pagingResolveVirtualAddress hhdm pml4 v s = 0#64 := by
  refine pagingResolveVirtualAddress_of_no_leaf fun size => ?_
  by_contra hne
  obtain ⟨e, he⟩ := Option.ne_none_iff_exists'.mp hne
  refine hno (.of size v) ?_ (VirtualPage.mem_range_of hv)
  rw [h.mapped_of_leaf hv (Slot.leaf?_eq_some.mp he)]
  simp

end Represents

/-- **Every run represents its map.** -/
theorem PagingRun.represents (hw : hhdm.toNat + 2 ^ 40 ≤ 2 ^ 64)
    (hzero : ∀ i, s₀.mem pml4 i = 0#64) (h : PagingRun A hhdm pml4 s₀ s M) :
    Represents hhdm pml4 s M := by
  induction h with
  | start => exact Represents.start hzero
  | call c _ hc hfresh ih => exact ih.exec hw hc hfresh

/-- **Page tables refine a partial map.** After any run of admissible calls
from an all-zero PML4, a canonical address resolves to what the page it lies in
is mapped to, and to 0 if it lies in no mapped page; mapping a page that is
mapped fails and changes nothing, and mapping one that is apart from all mapped
pages succeeds. -/
theorem pagingRun_refines (hw : hhdm.toNat + 2 ^ 40 ≤ 2 ^ 64)
    (hzero : ∀ i, s₀.mem pml4 i = 0#64) (h : PagingRun A hhdm pml4 s₀ s M) :
    (∀ v, Canonical v →
      (∀ p phys, M p = some phys → v ∈ p.range →
        pagingResolveVirtualAddress hhdm pml4 v s = phys) ∧
      ((∀ p, M p ≠ none → v ∉ p.range) → pagingResolveVirtualAddress hhdm pml4 v s = 0#64)) ∧
    (∀ phys v size flags, (PagingCall.map phys v size flags).WellFormed →
      (M (.of size v) ≠ none → pagingMapPage A hhdm pml4 phys v size flags s = (.error, s)) ∧
      ((PagingCall.map phys v size flags).Apart M →
        FreshBetween A hhdm (pageTables hhdm s.mem pml4) s
          (pagingMapPage A hhdm pml4 phys v size flags s).2 →
        (pagingMapPage A hhdm pml4 phys v size flags s).1 = .ok)) := by
  have hr := h.represents hw hzero
  refine ⟨fun v hv => ⟨fun p phys => hr.resolve_of_mapped, hr.resolve_of_not_mapped hv⟩, ?_⟩
  rintro phys v size flags ⟨hv, -, hflags⟩
  constructor
  · intro hmapped
    obtain ⟨phys', hM⟩ := Option.ne_none_iff_exists'.mp hmapped
    obtain ⟨e, he, -⟩ := hr.leaf_of_mapped hv hM
    exact pagingMapPage_of_occupied phys flags (by rw [he]; simp)
  · intro hapart hfresh
    obtain ⟨habove, hfree⟩ := hr.free_of_apart hv hapart
    obtain ⟨used', s', hrun, -⟩ := pagingMapPage_of_free hw
      ⟨hr.tree, subset_rfl, hfresh.pages⟩ le_rfl hflags habove hfree
    show (pagingMapPageWithoutTlbInvalidation A hhdm pml4 phys v size flags s).1 = .ok
    rw [hrun]

/-- A memory manager that hands out one page after the other and takes none
back. -/
def bumpAllocator : PageAllocator ℕ where
  pmmAlloc n := (BitVec.ofNat 64 (4096 * n), n + 1)
  pmmFree _ n := n

/-- An empty machine: memory is zero, and the next page is the one at
`0x1000`. -/
def zeroMachine : Machine ℕ where
  mem _ _ := 0#64
  pmm := 1
  trace := []

/-- The start of the higher half, for the offset of a direct map and, a page
there, for the pointer of a PML4. -/
abbrev higherHalf : BitVec 64 := 0xffff800000000000#64

/-- The pages a mapping on the empty machine gets are fresh. -/
theorem freshBetween_zeroMachine {phys virt : BitVec 64} {size : PageSize} {flags : BitVec 64} :
    FreshBetween bumpAllocator higherHalf (pageTables higherHalf zeroMachine.mem higherHalf)
      zeroMachine
      (pagingMapPage bumpAllocator higherHalf higherHalf phys virt size flags zeroMachine).2 := by
  have hroot : pageTables higherHalf zeroMachine.mem higherHalf = {higherHalf} :=
    tables_eq_root_of_empty fun _ => entrySlot_of_not_present present_zero _
  have hfresh : FreshPages bumpAllocator higherHalf 3 {higherHalf} zeroMachine.pmm := by
    simp only [FreshPages, Set.mem_insert_iff, Set.mem_singleton_iff]
    decide
  rw [hroot]
  refine ⟨hfresh.mono ?_⟩
  exact Nat.sub_le_iff_le_add'.mpr (allocs_pagingMapPage phys virt size flags zeroMachine).2

/-- A run of one mapping on the empty machine. -/
theorem pagingRun_zeroMachine {phys virt : BitVec 64} {size : PageSize} {flags : BitVec 64}
    (hc : (PagingCall.map phys virt size flags).WellFormed) :
    PagingRun bumpAllocator higherHalf higherHalf zeroMachine
      (pagingMapPage bumpAllocator higherHalf higherHalf phys virt size flags zeroMachine).2
      ((PagingCall.map phys virt size flags).apply fun _ => none) :=
  .call _ .start ⟨hc, Or.inl fun _ hp => absurd rfl hp⟩ freshBetween_zeroMachine

/-- The empty machine after the first 2 MB have been mapped to the second. -/
def mappedMachine : Machine ℕ :=
  (pagingMapPage bumpAllocator higherHalf higherHalf 0x200000#64 0#64 .mb2 0x83#64 zeroMachine).2

/-- The map of the page there. -/
def mappedMap : AddressMap := (PagingCall.map 0x200000#64 0#64 .mb2 0x83#64).apply fun _ => none

theorem pagingRun_mappedMachine :
    PagingRun bumpAllocator higherHalf higherHalf zeroMachine mappedMachine mappedMap :=
  pagingRun_zeroMachine ⟨by decide, by decide, by decide⟩

/-- The run that unmaps them again. -/
theorem pagingRun_unmap_mappedMachine :
    PagingRun bumpAllocator higherHalf higherHalf zeroMachine
      (pagingUnmapPage bumpAllocator higherHalf higherHalf 0#64 .mb2 mappedMachine).2
      ((PagingCall.unmap 0#64 .mb2).apply mappedMap) := by
  -- unmapping takes no page
  have hallocs : (pagingUnmapPage bumpAllocator higherHalf higherHalf 0#64 .mb2
      mappedMachine).2.allocs - mappedMachine.allocs = 0 := by decide +kernel
  have hfresh : FreshBetween bumpAllocator higherHalf
      (pageTables higherHalf mappedMachine.mem higherHalf) mappedMachine
      (pagingUnmapPage bumpAllocator higherHalf higherHalf 0#64 .mb2 mappedMachine).2 :=
    ⟨by rw [hallocs]; trivial⟩
  have hcan : Canonical 0#64 := by decide
  exact pagingRun_mappedMachine.call (.unmap 0#64 .mb2) ⟨hcan, Or.inr (by decide)⟩ hfresh

/-- No page is mapped then. -/
theorem unmap_mappedMap (p : VirtualPage) :
    (PagingCall.unmap 0#64 .mb2).apply mappedMap p = none := by
  by_cases hp : p = .of .mb2 0#64
  · rw [hp]
    decide
  · show Function.update (Function.update (fun _ => none) _ _) _ _ p = none
    rw [Function.update_of_ne hp, Function.update_of_ne hp]

/-- An address in them, when they are mapped and when they are unmapped. -/
theorem pagingRun_refines_one :
    pagingResolveVirtualAddress higherHalf higherHalf 0x1234#64 mappedMachine = 0x200000#64 ∧
      pagingResolveVirtualAddress higherHalf higherHalf 0x1234#64
        (pagingUnmapPage bumpAllocator higherHalf higherHalf 0#64 .mb2 mappedMachine).2
          = 0#64 := by
  have hmapped := (pagingRun_refines (by decide) (fun _ => rfl) pagingRun_mappedMachine).1
    0x1234#64 (by decide)
  have hunmapped := (pagingRun_refines (by decide) (fun _ => rfl)
    pagingRun_unmap_mappedMachine).1 0x1234#64 (by decide)
  exact ⟨hmapped.1 (.of .mb2 0#64) 0x200000#64 rfl ⟨by decide, by decide⟩,
    hunmapped.2 fun p hp => absurd (unmap_mappedMap p) hp⟩
