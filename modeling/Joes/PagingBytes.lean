import Joes.KernelMemory
import Joes.TableMemory

/-!
# The paging code on bytes

Whatever the paging code does to tables, it does to the bytes that hold them, if the memory
manager hands out aligned pages: every call, also one that fails, is a sequence of `memset`s
of whole tables and of assignments to entries (`Performs`). A `memset` of one table does not
touch the bytes of another one, since both are aligned, and the 8 bytes of an entry are in no
other entry. So the bytes hold the tables after every step if they held them before it
(`Holds.performs`), and a walk that reads the bytes resolves an address as the model does
(`Holds.resolve`).

What the memory manager keeps about its regions is in memory, too. It is written elsewhere
here, which needs that no page table is ever one of the manager's own pages. For the address
spaces of the kernel this holds after every run in which pages are given back only by those
who hold them (`kernelRun_spaces`). The manager hands out aligned pages wherever the bases
of the memory map are aligned (`pmmPages_aligning`). So the address spaces of the kernel are
also in the bytes what the calls on them make of them (`kernelSpaces_bytes`).
-/

open PageTableEntry

variable {σ : Type} {A : PageAllocator σ} {hhdm : BitVec 64} {pml4 t : TablePtr}
  {i : TableIndex} {m m' m₁ : ByteMemory} {s s' s₁ s₀ : Machine σ} {Inv : σ → Prop}

/-- **The bytes hold the tables** of a machine. -/
def Holds (m : ByteMemory) (s : Machine σ) : Prop := ∀ t i, Aligned t → tablesOf m t i = s.mem t i

/-- **What is done to the machine is done to the bytes**, step by step: a table is cleared
with `memset`, an entry is stored with its 8 bytes, and what the memory manager does is done
elsewhere. -/
inductive Performs (A : PageAllocator σ) : ByteMemory → Machine σ → ByteMemory → Machine σ → Prop
  | refl (m : ByteMemory) (s : Machine σ) : Performs A m s m s
  | alloc {m m' : ByteMemory} {s s' : Machine σ} :
    Performs A m s m' s' → Performs A m s m' (s'.afterAlloc A)
  | free {m m' : ByteMemory} {s s' : Machine σ} (page : BitVec 64) :
    Performs A m s m' s' → Performs A m s m' (s'.afterFree A page)
  | zero {m m' : ByteMemory} {s s' : Machine σ} {t : TablePtr} : Aligned t →
    Performs A m s m' s' →
    Performs A m s (memset t 0#32 0x1000#64 m').2 (s'.zeroPage t)
  | store {m m' : ByteMemory} {s s' : Machine σ} {t : TablePtr} (i : TableIndex)
    (e : PageTableEntry) : Aligned t → Performs A m s m' s' →
    Performs A m s (storeWord (t + i.setWidth 64 * 8#64) e m') (s'.storeEntry t i e)

theorem Performs.trans (h : Performs A m s m₁ s₁) (h' : Performs A m₁ s₁ m' s') :
    Performs A m s m' s' := by
  induction h' with
  | refl => exact h
  | alloc _ ih => exact (ih h).alloc
  | free page _ ih => exact (ih h).free page
  | zero ht _ ih => exact (ih h).zero ht
  | store i e ht _ ih => exact (ih h).store i e ht

/-- **The simulation**: the bytes hold the tables after every step. -/
theorem Holds.performs (h : Holds m s) (hrun : Performs A m s m' s') : Holds m' s' := by
  induction hrun with
  | refl => exact h
  | alloc _ ih => exact ih h
  | free page _ ih => exact ih h
  | @zero _ _ s' t ht _ ih =>
    intro u j hu
    rw [tablesOf_memset ht hu]
    by_cases htable : u = t
    · rw [if_pos htable, htable, Machine.mem_zeroPage_self]
    · rw [if_neg htable, Machine.mem_zeroPage_of_ne htable, ih h u j hu]
  | @store _ _ s' t i e ht _ ih =>
    intro u j hu
    rw [tablesOf_storeWord ht hu]
    by_cases hentry : u = t ∧ j = i
    · rw [if_pos hentry, hentry.1, hentry.2, Machine.mem_storeEntry_self]
    · rw [if_neg hentry, Machine.mem_storeEntry_of_ne (mt Prod.mk.inj hentry), ih h u j hu]

/-! ## The calls -/

/-- **The manager hands out aligned pages**, as long as an invariant of its own holds, which
`pmm_alloc` and `pmm_free` keep. -/
structure PageAllocator.Aligning (A : PageAllocator σ) (Inv : σ → Prop) : Prop where
  alloc : ∀ {p : σ}, Inv p → Aligned (A.pmmAlloc p).1 ∧ Inv (A.pmmAlloc p).2
  free : ∀ {p : σ} (page : BitVec 64), Inv p → Inv (A.pmmFree page p)

/-- **One machine becomes the other on bytes too.** -/
def OnBytes (A : PageAllocator σ) (Inv : σ → Prop) (s s' : Machine σ) : Prop :=
  Inv s.pmm → Inv s'.pmm ∧ ∀ m, ∃ m', Performs A m s m' s'

namespace OnBytes

theorem refl (s : Machine σ) : OnBytes A Inv s s := fun hp => ⟨hp, fun m => ⟨m, .refl m s⟩⟩

theorem trans (h : OnBytes A Inv s s₁) (h' : OnBytes A Inv s₁ s') : OnBytes A Inv s s' := by
  intro hp
  obtain ⟨hp₁, hrun⟩ := h hp
  obtain ⟨hp', hrun'⟩ := h' hp₁
  refine ⟨hp', fun m => ?_⟩
  obtain ⟨m₁, hfirst⟩ := hrun m
  obtain ⟨m', hsecond⟩ := hrun' m₁
  exact ⟨m', hfirst.trans hsecond⟩

theorem alloc (hA : A.Aligning Inv) (s : Machine σ) : OnBytes A Inv s (s.afterAlloc A) :=
  fun hp => ⟨(hA.alloc hp).2, fun m => ⟨m, (Performs.refl m s).alloc⟩⟩

theorem free (hA : A.Aligning Inv) (page : BitVec 64) (s : Machine σ) :
    OnBytes A Inv s (s.afterFree A page) :=
  fun hp => ⟨hA.free page hp, fun m => ⟨m, (Performs.refl m s).free page⟩⟩

theorem zero (ht : Aligned t) (s : Machine σ) : OnBytes A Inv s (s.zeroPage t) :=
  fun hp => ⟨hp, fun m => ⟨_, (Performs.refl m s).zero ht⟩⟩

theorem store (ht : Aligned t) (i : TableIndex) (e : PageTableEntry) (s : Machine σ) :
    OnBytes A Inv s (s.storeEntry t i e) :=
  fun hp => ⟨hp, fun m => ⟨_, (Performs.refl m s).store i e ht⟩⟩

end OnBytes

section Calls

variable (hA : A.Aligning Inv) (hw : Aligned hhdm)
include hA hw

/-- The next table is aligned, whether it was there or is new. -/
theorem nextTable_onBytes (ht : Aligned t) (hp : Inv s.pmm) (level : PageTableLevel) :
    OnBytes A Inv s (nextTable A hhdm level t i s).2 ∧
      ∀ u, (nextTable A hhdm level t i s).1 = some u → Aligned u := by
  unfold nextTable
  by_cases hpresent : (s.mem t i).present = false
  · rw [if_pos hpresent]
    dsimp only
    have halign : Aligned ((A.pmmAlloc s.pmm).1 + hhdm) := (hA.alloc hp).1.add hw
    by_cases hnull : (A.pmmAlloc s.pmm).1 + hhdm = 0#64
    · rw [if_pos hnull]
      exact ⟨.alloc hA s, fun u hu => by cases hu⟩
    · rw [if_neg hnull]
      refine ⟨((OnBytes.alloc hA s).trans (.zero halign _)).trans (.store ht i _ _), ?_⟩
      intro u hu
      obtain rfl := Option.some.inj hu
      exact halign
  · rw [if_neg hpresent]
    refine ⟨.refl s, fun u hu => ?_⟩
    obtain rfl := Option.some.inj hu
    exact (aligned_tableAddress _).add hw

/-- The descent of a mapping, by induction on its steps. -/
theorem nextTables_onBytes (steps : List (PageTableLevel × TableIndex)) (ht : Aligned t)
    (hp : Inv s.pmm) : OnBytes A Inv s (nextTables A hhdm steps t s).2 ∧
      ∀ u, (nextTables A hhdm steps t s).1 = some u → Aligned u := by
  induction steps generalizing t s with
  | nil =>
    refine ⟨.refl s, fun u hu => ?_⟩
    obtain rfl := Option.some.inj hu
    exact ht
  | cons step steps ih =>
    obtain ⟨hfirst, halign⟩ := nextTable_onBytes (i := step.2) hA hw ht hp step.1
    unfold nextTables
    rcases hnext : nextTable A hhdm step.1 t step.2 s with ⟨_ | u, s₁⟩
    · rw [hnext] at hfirst
      exact ⟨hfirst, fun u hu => by cases hu⟩
    · rw [hnext] at hfirst halign
      obtain ⟨hrest, hlast⟩ := ih (halign u rfl) (hfirst hp).1
      exact ⟨hfirst.trans hrest, hlast⟩

/-- **A mapping.** -/
theorem pagingMapPage_onBytes (ht : Aligned pml4) (phys virt : BitVec 64) (size : PageSize)
    (flags : BitVec 64) (s : Machine σ) : OnBytes A Inv s
      (pagingMapPageWithoutTlbInvalidation A hhdm pml4 phys virt size flags s).2 := by
  intro hp
  obtain ⟨hdown, halign⟩ := nextTables_onBytes hA hw (pageSteps size virt) ht hp
  rw [pagingMapPage_eq_nextTables]
  rcases hnext : nextTables A hhdm (pageSteps size virt) pml4 s with ⟨_ | u, s₁⟩
  · rw [hnext] at hdown
    exact hdown hp
  · rw [hnext] at hdown halign
    refine hdown.trans ?_ hp
    show OnBytes A Inv s₁ (mapLeaf size.level u (leafIdx size virt) phys flags s₁).2
    unfold mapLeaf
    by_cases hpresent : (s₁.mem u (leafIdx size virt)).present = true
    · rw [if_pos hpresent]
      exact .refl s₁
    · rw [if_neg hpresent]
      exact .store (halign u rfl) _ _ s₁

omit hw in
theorem pagingCheckForEmptyTable_onBytes (ht : Aligned t) (table : TablePtr) (i : TableIndex)
    (s : Machine σ) : OnBytes A Inv s (pagingCheckForEmptyTable A hhdm table t i s) := by
  unfold pagingCheckForEmptyTable
  by_cases hempty : tableEmpty table s = true
  · rw [if_pos hempty]
    exact (OnBytes.store ht i _ s).trans (.free hA _ _)
  · rw [if_neg hempty]
    exact .refl s

omit hw in
theorem checkForEmptyPd_onBytes {pdpr : TablePtr} (ht : Aligned pml4) (hpdpr : Aligned pdpr)
    (pd : TablePtr) (virt : BitVec 64) (s : Machine σ) :
    OnBytes A Inv s (checkForEmptyPd A hhdm pml4 pdpr pd virt s) := by
  unfold checkForEmptyPd checkForEmptyPdpr
  exact (pagingCheckForEmptyTable_onBytes hA hpdpr pd (pdprIdx virt) s).trans
    (pagingCheckForEmptyTable_onBytes hA ht pdpr (pml4Idx virt) _)

/-- **Unmapping.** -/
theorem pagingUnmapPage_onBytes (ht : Aligned pml4) (virt : BitVec 64) (size : PageSize)
    (s : Machine σ) : OnBytes A Inv s (pagingUnmapPage A hhdm pml4 virt size s).2 := by
  have hnext : ∀ e : PageTableEntry, Aligned (e.tableAddress + hhdm) :=
    fun e => (aligned_tableAddress e).add hw
  unfold pagingUnmapPage
  dsimp only
  split
  · exact .refl s
  split
  · exact .refl s
  split
  · -- a page of 1 GB: the PDPR may be empty now
    dsimp only [checkForEmptyPdpr]
    exact (OnBytes.store (hnext _) _ _ s).trans (pagingCheckForEmptyTable_onBytes hA ht _ _ _)
  split
  · exact .refl s
  split
  · -- a page of 2 MB: the PD, and then the PDPR
    dsimp only
    exact (OnBytes.store (hnext _) _ _ s).trans
      (checkForEmptyPd_onBytes hA ht (hnext _) _ virt _)
  · -- a page of 4 KB: the PT before them
    dsimp only
    exact ((OnBytes.store (hnext _) _ _ s).trans
      (pagingCheckForEmptyTable_onBytes hA (hnext _) _ _ _)).trans
        (checkForEmptyPd_onBytes hA ht (hnext _) _ virt _)

end Calls

/-! ## Runs -/

/-- **A run on address spaces is one on bytes**, if their PML4s are aligned. -/
theorem SpaceRun.onBytes {ι : Type} [DecidableEq ι] {O : PageOwner A} {root : ι → TablePtr}
    {Ms : ι → AddressMap} (hA : A.Aligning Inv) (hw : Aligned hhdm)
    (hroot : ∀ j, Aligned (root j)) (h : SpaceRun O hhdm root s₀ s Ms) : OnBytes A Inv s₀ s := by
  induction h with
  | start => exact .refl s₀
  | @call s _ j c _ _ _ ih =>
    cases c with
    | map phys virt size flags =>
      exact ih.trans (pagingMapPage_onBytes hA hw (hroot j) phys virt size flags s)
    | unmap virt size => exact ih.trans (pagingUnmapPage_onBytes hA hw (hroot j) virt size s)
  | @alloc s _ _ _ ih => exact ih.trans (.alloc hA s)
  | @free s _ page _ _ _ ih => exact ih.trans (.free hA page s)

/-- The walk reads aligned tables only. -/
theorem Holds.resolve (h : Holds m s) (hw : Aligned hhdm) (ht : Aligned pml4) (v : BitVec 64) :
    pagingResolveVirtualAddress hhdm pml4 v { s with mem := tablesOf m }
      = pagingResolveVirtualAddress hhdm pml4 v s := by
  have hnext : ∀ (e : PageTableEntry) (i : TableIndex),
      tablesOf m (e.tableAddress + hhdm) i = s.mem (e.tableAddress + hhdm) i :=
    fun e i => h _ i ((aligned_tableAddress e).add hw)
  unfold pagingResolveVirtualAddress
  dsimp only
  rw [h pml4 _ ht, hnext, hnext, hnext]

/-! ## The manager of the kernel -/

namespace Pmm

variable {p : Pmm}

/-- **The regions start at aligned addresses.** -/
def BasesAligned (p : Pmm) : Prop := ∀ i < p.numRegions, (p.regions i).base % 4096 = 0

theorem BasesAligned.withFreePages (h : p.BasesAligned) (i f : ℕ) (mem : ByteMemory) :
    (p.withFreePages i f mem).BasesAligned := by
  intro j hj
  obtain ⟨g, hg⟩ := p.regions_withFreePages i f mem j
  rw [hg]
  exact h j hj

theorem BasesAligned.markPageUsed (h : p.BasesAligned) (i a : ℕ) :
    (p.markPageUsed i a).2.BasesAligned := by
  rw [markPageUsed_eq]
  split
  · exact h
  · exact h.withFreePages i _ _

theorem BasesAligned.markPageFree (h : p.BasesAligned) (i a : ℕ) :
    (p.markPageFree i a).2.BasesAligned := by
  rw [markPageFree_eq]
  split
  · exact h
  · exact h.withFreePages i _ _

/-- What is handed out lies whole pages behind the base of a region. -/
theorem BasesAligned.pmmAlloc (h : p.BasesAligned) :
    (pmmAlloc p).1 % 4096 = 0 ∧ (pmmAlloc p).2.BasesAligned := by
  obtain ⟨rc, bc, halloc⟩ | ⟨i, b, k, rc, bc, hfirst, -, halloc⟩ := p.pmmAlloc_cases
  · rw [halloc]
    exact ⟨rfl, h⟩
  · rw [halloc]
    have hbase := h i hfirst.region_lt
    refine ⟨?_, BasesAligned.markPageUsed (p := p.withCaches rc bc) h i _⟩
    show ((p.regions i).base + (b * 8 + k) * 4096) % 2 ^ 64 % 4096 = 0
    omega

theorem BasesAligned.of_pmmFree (h : p.BasesAligned) {a : ℕ} {e : PmmErrorCode} {q : Pmm}
    (hq : pmmFree p a = some (e, q)) : q.BasesAligned := by
  unfold pmmFree at hq
  rcases hlookup : p.getRegionContainingPage a with i | - | -
  · rw [hlookup] at hq
    cases hq
    exact h.markPageFree i a
  · rw [hlookup] at hq
    cases hq
    exact h
  · rw [hlookup] at hq
    cases hq

end Pmm

namespace Client

variable {c d : Client}

/-- A call leaves the bases where they are. -/
theorem basesAligned_call (h : c.pmm.BasesAligned) {x : PmmCall} (hd : c.call x = some d) :
    d.pmm.BasesAligned := by
  cases x with
  | alloc =>
    obtain rfl := Option.some.inj hd
    exact h.pmmAlloc.2
  | free a =>
    obtain ⟨result, hresult, rfl⟩ := Option.map_eq_some_iff.mp hd
    exact h.of_pmmFree hresult

/-- The bases are those of the memory map, after every run. -/
theorem basesAligned_of_reaches {m : Memmap}
    (hm : ∀ i < m.entryCount, (m.entries i).base % 4096 = 0) {hhdm : BitVec 64} {p : Pmm}
    (hok : (pmmInit m.toLimineMemmapResponse hhdm p).1 = .ok)
    {allowed : Client → PmmCall → Prop}
    (hreach : Reaches Client.call allowed (Client.init m hhdm p) c) : c.pmm.BasesAligned := by
  have hl : HasLayout m (pmmInit m.toLimineMemmapResponse hhdm p).2 :=
    (guarded_of_pmmInit hok).2.toHasLayout
  refine hreach.invariant (fun i hi => ?_) fun _ _ _ h _ hcall => basesAligned_call h hcall
  have hi' : i < m.entryCount := hl.numRegions_eq ▸ hi
  exact (congrArg (· % 4096) (hl.base_eq i hi')).trans (hm i hi')

end Client

/-- **The manager of the kernel hands out aligned pages**, whatever is given back to it. -/
theorem pmmPages_aligning : pmmPages.Aligning fun c => c.pmm.BasesAligned where
  alloc := by
    intro c hc
    obtain ⟨halign, hnext⟩ := hc.pmmAlloc
    refine ⟨?_, hnext⟩
    show (BitVec.ofNat 64 (pmmAlloc c.pmm).1).toNat % 4096 = 0
    rw [BitVec.toNat_ofNat]
    omega
  free := by
    intro c page hc
    show ((c.call (.free page.toNat)).getD c).pmm.BasesAligned
    rcases hcall : c.call (.free page.toNat) with _ | d
    · exact hc
    · exact Client.basesAligned_call hc hcall

theorem basesAligned_singleEntryMap : ∀ i < (singleEntryMap 8).entryCount,
    ((singleEntryMap 8).entries i).base % 4096 = 0 := by
  intro i hi
  obtain rfl : i = 0 := Nat.lt_one_iff.mp hi
  decide

/-- **The address spaces of the kernel, in bytes.** Let there be some PML4s, pages that legal
calls have taken and whose bytes are zero. After every run of calls on the address spaces, the
walk over the bytes resolves a canonical address in each of them to what the page it lies in
was mapped to by the calls on that space, and to 0 if it lies in no mapped page. -/
theorem kernelSpaces_bytes {ι : Type} [DecidableEq ι] (m : Memmap) (hm : m.PagesFit)
    (hbases : ∀ i < m.entryCount, (m.entries i).base % 4096 = 0) (hhdm : BitVec 64)
    (halign : Aligned hhdm) (p : Pmm) (hok : (pmmInit m.toLimineMemmapResponse hhdm p).1 = .ok)
    (hw : hhdm.toNat + 2 ^ 40 ≤ 2 ^ 64) {b : ByteMemory} {s₀ s : Machine Client}
    {root : ι → TablePtr} {Ms : ι → AddressMap}
    (hreach : Reaches Client.call Client.StopsLegal (Client.init m hhdm p) s₀.pmm)
    (hroot : Function.Injective root) (hheld : ∀ j, root j - hhdm ∈ s₀.pmm.heldPages)
    (hb : Holds b s₀) (hzero : ∀ j i, tablesOf b (root j) i = 0#64)
    (hrun : SpaceRun (pmmOwner m hm) hhdm root s₀ s Ms) :
    ∃ b', Performs pmmPages b s₀ b' s ∧ ∀ j v, Canonical v →
      (∀ page phys, Ms j page = some phys → v ∈ page.range →
        pagingResolveVirtualAddress hhdm (root j) v { s with mem := tablesOf b' } = phys) ∧
      ((∀ page, Ms j page ≠ none → v ∉ page.range) →
        pagingResolveVirtualAddress hhdm (root j) v { s with mem := tablesOf b' } = 0#64) := by
  have hinv : Client.Inv m s₀.pmm := inv_of_pmmInit hok hreach
  -- a PML4 is a page of usable memory, seen through the direct map
  have hroots : ∀ j, Aligned (root j) := by
    intro j
    obtain ⟨i, k, hfree, haddr⟩ := hinv.exists_freePage (hheld j)
    obtain ⟨hlt, hpage⟩ := hfree.isFrame hm
    rw [← BitVec.sub_add_cancel (root j) hhdm]
    refine Aligned.add ?_ halign
    rw [haddr]
    unfold Aligned
    rw [BitVec.toNat_ofNat]
    omega
  have hempty : ∀ j i, s₀.mem (root j) i = 0#64 :=
    fun j i => (hb _ i (hroots j)).symm.trans (hzero j i)
  have hs := spaces_of_pmmInit hm hok hw hreach hroot hheld hempty hrun
  obtain ⟨b', hperforms⟩ := (hrun.onBytes pmmPages_aligning halign hroots
    (Client.basesAligned_of_reaches hbases hok hreach)).2 b
  refine ⟨b', hperforms, fun j v hv => ?_⟩
  rw [(hb.performs hperforms).resolve halign (hroots j) v]
  exact ⟨fun page phys => (hs.represents j).resolve_of_mapped,
    (hs.represents j).resolve_of_not_mapped hv⟩

/-- The witness of `kernelSpaces_bytes`: the bytes say what is mapped in the first space, and
that it is not in the other one. -/
theorem kernelSpaces_bytes_two :
    let s := (pagingMapPage pmmPages higherHalf (twoRoots true) 0x200000#64 0#64 .mb2 0x83#64
      (twoSpaces (singleEntryMap 8))).2
    ∃ b, Performs pmmPages (fun _ => 0#8) (twoSpaces (singleEntryMap 8)) b s ∧
      pagingResolveVirtualAddress higherHalf (twoRoots true) 0x1234#64 { s with mem := tablesOf b }
        = 0x200000#64 ∧
      pagingResolveVirtualAddress higherHalf (twoRoots false) 0x1234#64 { s with mem := tablesOf b }
        = 0#64 := by
  have hzero : ∀ t i, tablesOf (fun _ => 0#8) t i = 0#64 :=
    fun t i => wordAt_zero (t + i.setWidth 64 * 8#64)
  obtain ⟨b, hb, hspaces⟩ := kernelSpaces_bytes _ pagesFit_singleEntryMap
    basesAligned_singleEntryMap higherHalf (by decide) bootPmm pmmInit_singleEntryMap (by decide)
    reaches_twoSpaces (by decide) heldPages_twoSpaces (fun t i _ => hzero t i)
    (fun j => hzero (twoRoots j)) spaceRun_twoSpaces
  exact ⟨b, hb, (hspaces true 0x1234#64 (by decide)).1 (.of .mb2 0#64) _ rfl ⟨by decide, by decide⟩,
    (hspaces false 0x1234#64 (by decide)).2 fun _ hp => absurd rfl hp⟩
