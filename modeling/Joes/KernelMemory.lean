import Joes.AddressSpaces
import Joes.PmmClient

/-!
# The address spaces of the kernel

The memory manager of the kernel keeps the contract that paging relies on (`pmmOwner`),
wherever its search stops at a page. So with both of them together, from the map that the
bootloader has given to what the CPU finds in the page tables, the address spaces are what
the calls on them make of them, and the tables lie in usable memory, apart from each other
and from the data of the manager (`kernelRun_spaces`).

Paging asks three things of whoever owns the pages: that a page that is handed out has an
address which the entries of the tables have bits for, that nobody held it before, and that a
page that is given back is the one that is no longer held. The first is a condition on the map
(`Memmap.PagesFit`). The second is the invariant of the manager's clients, as `pmm_alloc` marks
a page whose bit was clear, and the bits of the pages that are held are set
(`Client.Inv.pmmAlloc_page`). The third is what `pmm_free` does for a page that is held, where
it always has a result.

The invariant holds after `pmm_init` and after every run of legal calls behind it
(`inv_of_pmmInit`), so the address spaces may be set up at any time. From there on the run is
one of `SpaceRun` with this owner, and the results are those of it (`spaces_of_pmmInit`).
-/

open PageTableEntry RadixHeap

/-- **Usable memory consists of pages below `2 ^ 40`**, the ones that the entries of the
tables have bits for. -/
def Memmap.PagesFit (m : Memmap) : Prop :=
  ∀ i < m.entryCount, (m.entries i).type = .usable →
    (m.entries i).base % 4096 = 0 ∧ (m.entries i).base + (m.entries i).length ≤ 2 ^ 40

/-- The address of a page that is free is a frame. -/
theorem Memmap.IsFreePage.isFrame {m : Memmap} (hm : m.PagesFit) {i k : ℕ}
    (h : m.IsFreePage i k) : m.pageAddress i k < 2 ^ 40 ∧ m.pageAddress i k % 4096 = 0 := by
  obtain ⟨hbase, hend⟩ := hm i h.lt h.usable
  have hk := h.page_lt
  unfold Memmap.pages at hk
  unfold Memmap.pageAddress
  omega

/-! ## The manager keeps the contract -/

/-- **The manager as paging sees it.** Where `pmm_free` is undefined nothing happens; the
runs below do not get there. -/
def pmmPages : PageAllocator Client where
  pmmAlloc c := (BitVec.ofNat 64 (pmmAlloc c.pmm).1, (c.call .alloc).getD c)
  pmmFree page c := (c.call (.free page.toNat)).getD c

namespace Client

variable {m : Memmap} {c : Client}

/-- The pages that are held, as paging sees them. -/
def heldPages (c : Client) : Set (BitVec 64) := {page | page.toNat ∈ c.held}

/-- A page that is held is a free page of the map. -/
theorem Inv.exists_freePage (h : Inv m c) {page : BitVec 64} (hpage : page ∈ c.heldPages) :
    ∃ i k, m.IsFreePage i k ∧ page = BitVec.ofNat 64 (m.pageAddress i k) := by
  obtain ⟨i, k, hfree, -, haddr, -⟩ := h.isTaken _ hpage
  refine ⟨i, k, hfree, ?_⟩
  rw [← haddr, BitVec.ofNat_toNat, BitVec.setWidth_eq]

/-- **What `pmm_alloc` does for paging**: there is no page, or it is one that nobody
held. -/
theorem Inv.pmmAlloc_page (h : Inv m c) (hm : m.PagesFit) (hstop : c.pmm.StopsAtPage) :
    (pmmAlloc c.pmm).1 = 0 ∨
      ((pmmAlloc c.pmm).1 < 2 ^ 40 ∧ (pmmAlloc c.pmm).1 % 4096 = 0 ∧
        (pmmAlloc c.pmm).1 ∉ c.held) := by
  obtain ⟨rc, bc, halloc⟩ | ⟨i, k, rc, bc, hfree, -, hclear, halloc⟩ :=
    h.guarded.pmmAlloc_cases hstop
  · rw [halloc]
    exact Or.inl rfl
  · rw [halloc]
    obtain ⟨hlt, halign⟩ := hfree.isFrame hm
    exact Or.inr ⟨hlt, halign, fun hmem => not_isTaken hfree hclear (h.isTaken _ hmem)⟩

/-- Its address is the page that paging gets. -/
theorem Inv.toNat_pmmAlloc (h : Inv m c) (hm : m.PagesFit) (hstop : c.pmm.StopsAtPage) :
    (pmmPages.pmmAlloc c).1.toNat = (pmmAlloc c.pmm).1 := by
  show (BitVec.ofNat 64 (pmmAlloc c.pmm).1).toNat = _
  rw [BitVec.toNat_ofNat]
  rcases h.pmmAlloc_page hm hstop with hnull | ⟨hlt, -, -⟩
  · rw [hnull]
  · exact Nat.mod_eq_of_lt (by omega)

/-- The pages that are held after `pmm_alloc`. -/
theorem heldPages_pmmAlloc (c : Client) : (pmmPages.pmmAlloc c).2.heldPages =
    {page | page.toNat ∈ if (pmmAlloc c.pmm).1 = 0 then c.held
      else (pmmAlloc c.pmm).1 :: c.held} := rfl

end Client

/-- **The manager is an owner of pages**: `pmm_alloc` may be called where its search stops
at a page. -/
def pmmOwner (m : Memmap) (hm : m.PagesFit) : PageOwner pmmPages where
  Inv c := m.HoldsData m.dataEntry ∧ Client.Inv m c
  Ready c := c.pmm.StopsAtPage
  held := Client.heldPages
  alloc_null := by
    rintro c ⟨hd, hc⟩ hstop hnull
    have hzero : (pmmAlloc c.pmm).1 = 0 := by
      rw [← hc.toNat_pmmAlloc hm hstop, hnull]
      rfl
    refine ⟨⟨hd, hc.alloc hstop rfl⟩, ?_⟩
    rw [Client.heldPages_pmmAlloc, if_pos hzero]
    rfl
  alloc_page := by
    rintro c ⟨hd, hc⟩ hstop hpage
    have hnat := hc.toNat_pmmAlloc hm hstop
    have hne : (pmmAlloc c.pmm).1 ≠ 0 := by
      intro hzero
      rw [hzero] at hnat
      exact hpage (BitVec.eq_of_toNat_eq hnat)
    obtain ⟨hlt, halign, hnew⟩ := (hc.pmmAlloc_page hm hstop).resolve_left hne
    rw [← hnat] at hlt halign hnew
    refine ⟨⟨hlt, halign⟩, hnew, ⟨hd, hc.alloc hstop rfl⟩, ?_⟩
    rw [Client.heldPages_pmmAlloc, if_neg hne, ← hnat]
    ext page
    rw [Set.mem_ofPred_eq, List.mem_cons, BitVec.toNat_inj, Set.mem_insert_iff]
    rfl
  free := by
    rintro c page ⟨hd, hc⟩ hpage
    obtain ⟨q, hq, hinv⟩ := hc.pmmFree hd hpage
    have hcall : pmmPages.pmmFree page c = ⟨q, c.held.erase page.toNat⟩ := by
      show ((pmmFree c.pmm page.toNat).map _).getD c = _
      rw [hq]
      rfl
    rw [hcall]
    refine ⟨⟨hd, hinv⟩, ?_⟩
    ext page'
    show page'.toNat ∈ c.held.erase page.toNat ↔ _
    rw [hc.nodup.mem_erase_iff, Set.mem_sdiff, Set.mem_singleton_iff, ← BitVec.toNat_inj,
      and_comm]
    rfl

/-! ## The kernel with its manager -/

/-- The invariant of the client holds after a successful initialization. -/
theorem inv_of_pmmInit {m : Memmap} {hhdm : BitVec 64} {p : Pmm} {c : Client}
    (hok : (pmmInit m.toLimineMemmapResponse hhdm p).1 = .ok)
    (hreach : Reaches Client.call Client.StopsLegal (Client.init m hhdm p) c) :
    Client.Inv m c := by
  obtain ⟨hd, hg⟩ := guarded_of_pmmInit hok
  have hinit : Client.Inv m (Client.init m hhdm p) :=
    ⟨hg, fun a ha => absurd ha List.not_mem_nil, List.nodup_nil⟩
  exact Client.inv_of_reaches hd hinit hreach

/-- **The address spaces are in order** after every run of calls on them. -/
theorem spaces_of_pmmInit {ι : Type} [DecidableEq ι] {m : Memmap} (hm : m.PagesFit)
    {hhdm : BitVec 64} {p : Pmm} (hok : (pmmInit m.toLimineMemmapResponse hhdm p).1 = .ok)
    (hw : hhdm.toNat + 2 ^ 40 ≤ 2 ^ 64) {s₀ s : Machine Client} {root : ι → TablePtr}
    {Ms : ι → AddressMap}
    (hreach : Reaches Client.call Client.StopsLegal (Client.init m hhdm p) s₀.pmm)
    (hroot : Function.Injective root) (hheld : ∀ j, root j - hhdm ∈ s₀.pmm.heldPages)
    (hzero : ∀ j i, s₀.mem (root j) i = 0#64)
    (hrun : SpaceRun (pmmOwner m hm) hhdm root s₀ s Ms) :
    (pmmOwner m hm).Spaces hhdm root s Ms := by
  have hstart : (pmmOwner m hm).Spaces hhdm root s₀ fun _ _ => none :=
    PageOwner.Spaces.start ⟨(guarded_of_pmmInit hok).1, inv_of_pmmInit hok hreach⟩ hroot hheld hzero
  exact SpaceRun.spaces hw hstart hrun

/-- **The address spaces over the kernel's own manager.** After a successful
initialization, let there be some PML4s, all-zero pages that legal calls have taken. Then
after every run of calls on the address spaces, with pages taken and given back by others
in between:

* In each of them, a canonical address resolves to what the page it lies in was mapped to
  by the calls on that space, and to 0 if it lies in no mapped page.
* No table of one space is a table of another.
* Each table is a page of usable memory that does not hold the manager's data.
* What `pmm_alloc` hands out next is none of the tables, if its search stops at a page. -/
theorem kernelRun_spaces {ι : Type} [DecidableEq ι] (m : Memmap) (hm : m.PagesFit)
    (hhdm : BitVec 64) (p : Pmm) (hok : (pmmInit m.toLimineMemmapResponse hhdm p).1 = .ok)
    (hw : hhdm.toNat + 2 ^ 40 ≤ 2 ^ 64) {s₀ s : Machine Client} {root : ι → TablePtr}
    {Ms : ι → AddressMap}
    (hreach : Reaches Client.call Client.StopsLegal (Client.init m hhdm p) s₀.pmm)
    (hroot : Function.Injective root) (hheld : ∀ j, root j - hhdm ∈ s₀.pmm.heldPages)
    (hzero : ∀ j i, s₀.mem (root j) i = 0#64)
    (hrun : SpaceRun (pmmOwner m hm) hhdm root s₀ s Ms) :
    (∀ j v, Canonical v →
      (∀ page phys, Ms j page = some phys → v ∈ page.range →
        pagingResolveVirtualAddress hhdm (root j) v s = phys) ∧
      ((∀ page, Ms j page ≠ none → v ∉ page.range) →
        pagingResolveVirtualAddress hhdm (root j) v s = 0#64)) ∧
    (∀ i j, i ≠ j →
      Disjoint (pageTables hhdm s.mem (root i)) (pageTables hhdm s.mem (root j))) ∧
    (∀ j, ∀ t ∈ pageTables hhdm s.mem (root j), ∃ i k,
      m.IsFreePage i k ∧ t = BitVec.ofNat 64 (m.pageAddress i k) + hhdm) ∧
    (s.pmm.pmm.StopsAtPage → (pmmPages.pmmAlloc s.pmm).1 = 0#64 ∨
      ∀ j, (pmmPages.pmmAlloc s.pmm).1 + hhdm ∉ pageTables hhdm s.mem (root j)) := by
  have hs := spaces_of_pmmInit hm hok hw hreach hroot hheld hzero hrun
  refine ⟨fun j v hv => ⟨fun page phys => (hs.represents j).resolve_of_mapped,
    (hs.represents j).resolve_of_not_mapped hv⟩, hs.disjoint, fun j t ht => ?_, fun hstop => ?_⟩
  · obtain ⟨i, k, hfree, haddr⟩ := Client.Inv.exists_freePage hs.inv.2 (hs.tables j ht)
    exact ⟨i, k, hfree, by rw [← haddr, BitVec.sub_add_cancel]⟩
  · by_cases hnull : (pmmPages.pmmAlloc s.pmm).1 = 0#64
    · exact Or.inl hnull
    · obtain ⟨-, hnew, -, -⟩ := (pmmOwner m hm).alloc_page hs.inv hstop hnull
      refine Or.inr fun j ht => hnew ?_
      exact (pmmOwner m hm).add_mem_pointers.mp (hs.tables j ht)

/-- The client of a map that has allocated two pages. -/
def twoPageClient (m : Memmap) : Client :=
  (pmmPages.pmmAlloc (pmmPages.pmmAlloc (Client.init m higherHalf bootPmm)).2).2

/-- The two pages, as PML4s, if the first page is the one at 1 MB. -/
def twoRoots (first : Bool) : TablePtr :=
  (if first then 0x101000#64 else 0x102000#64) + higherHalf

/-- Two empty address spaces. -/
def twoSpaces (m : Memmap) : Machine Client where
  mem _ _ := 0#64
  pmm := twoPageClient m
  trace := []

theorem pagesFit_singleEntryMap : (singleEntryMap 8).PagesFit := by
  intro i hi _
  obtain rfl : i = 0 := Nat.lt_one_iff.mp hi
  decide

theorem pmmInit_singleEntryMap :
    (pmmInit (singleEntryMap 8).toLimineMemmapResponse higherHalf bootPmm).1 = .ok := by
  decide

/-- The region has no spare bits, so every search stops at a page. -/
theorem stopsAtPage_singleEntryMap {c : Client} (hc : Guarded (singleEntryMap 8) c.pmm) :
    c.pmm.StopsAtPage ∧ Guarded (singleEntryMap 8) (pmmPages.pmmAlloc c).2.pmm := by
  have hstop := hc.toHasLayout.stopsAtPage_of_dvd singleEntryMap_dvd
  exact ⟨hstop, hc.pmmAlloc hstop⟩

theorem reaches_twoSpaces : Reaches Client.call Client.StopsLegal
    (Client.init (singleEntryMap 8) higherHalf bootPmm) (twoSpaces (singleEntryMap 8)).pmm := by
  obtain ⟨hstop₀, hg₁⟩ := stopsAtPage_singleEntryMap
    (c := Client.init (singleEntryMap 8) higherHalf bootPmm)
    (guarded_of_pmmInit pmmInit_singleEntryMap).2
  obtain ⟨hstop₁, -⟩ := stopsAtPage_singleEntryMap hg₁
  exact .tail (.single ⟨.alloc, ⟨trivial, fun _ => hstop₀⟩, rfl⟩)
    ⟨.alloc, ⟨trivial, fun _ => hstop₁⟩, rfl⟩

theorem heldPages_twoSpaces (j : Bool) :
    twoRoots j - higherHalf ∈ (twoSpaces (singleEntryMap 8)).pmm.heldPages := by
  show (twoRoots j - higherHalf).toNat ∈ (twoPageClient (singleEntryMap 8)).held
  revert j
  decide +kernel

/-- In the first of the two spaces the first 2 MB are mapped to the second ones. -/
theorem spaceRun_twoSpaces :
    SpaceRun (pmmOwner _ pagesFit_singleEntryMap) higherHalf twoRoots (twoSpaces (singleEntryMap 8))
      (pagingMapPage pmmPages higherHalf (twoRoots true) 0x200000#64 0#64 .mb2 0x83#64
        (twoSpaces (singleEntryMap 8))).2
      (Function.update (fun _ _ => none) true
        ((PagingCall.map 0x200000#64 0#64 .mb2 0x83#64).apply fun _ => none)) := by
  have hg₂ : Guarded (singleEntryMap 8) (twoSpaces (singleEntryMap 8)).pmm.pmm :=
    (inv_of_pmmInit pmmInit_singleEntryMap reaches_twoSpaces).guarded
  obtain ⟨hstop₂, hg₃⟩ := stopsAtPage_singleEntryMap hg₂
  obtain ⟨hstop₃, hg₄⟩ := stopsAtPage_singleEntryMap hg₃
  obtain ⟨hstop₄, -⟩ := stopsAtPage_singleEntryMap hg₄
  have hpages : (pmmOwner _ pagesFit_singleEntryMap).Available 3
      (twoSpaces (singleEntryMap 8)).pmm := by
    refine ⟨hstop₂, ?_, hstop₃, ?_, hstop₄, ?_, trivial⟩ <;> decide +kernel
  have hcall : (PagingCall.map 0x200000#64 0#64 .mb2 0x83#64).Admissible fun _ => none :=
    ⟨⟨by decide, by decide, by decide⟩, Or.inl fun _ hp => absurd rfl hp⟩
  exact SpaceRun.start.map true hcall hpages

/-- The witness of `kernelRun_spaces`: what is mapped in the first space is not seen in the
other one. -/
theorem kernelRun_spaces_two :
    let s := (pagingMapPage pmmPages higherHalf (twoRoots true) 0x200000#64 0#64 .mb2 0x83#64
      (twoSpaces (singleEntryMap 8))).2
    pagingResolveVirtualAddress higherHalf (twoRoots true) 0x1234#64 s = 0x200000#64 ∧
      pagingResolveVirtualAddress higherHalf (twoRoots false) 0x1234#64 s = 0#64 := by
  have hspaces := (kernelRun_spaces _ pagesFit_singleEntryMap higherHalf bootPmm
    pmmInit_singleEntryMap (by decide) reaches_twoSpaces (by decide) heldPages_twoSpaces
    (fun _ _ => rfl) spaceRun_twoSpaces).1
  exact ⟨((hspaces true 0x1234#64 (by decide)).1 (.of .mb2 0#64) _ rfl ⟨by decide, by decide⟩),
    (hspaces false 0x1234#64 (by decide)).2 fun _ hp => absurd rfl hp⟩
