import Joes.PagingTwin

/-!
# What cloning does to the target

`paging_clone_page_table` walks the old tree and maps each leaf it finds in the
target, with whatever the mapping returns. So a slot of the target keeps what
it holds, or was free and now holds what the old tree has there – the same leaf
word, or some table where the old tree has one (`Copied`) – and where the old
tree has a leaf, the target's slot does not stay free (`CopyStep.filled`).

That is an induction over the four levels with one loop rule,
`forPresentEntries_copy`. Its invariant is `CopyInv`: the target is a tree, the
old tables are unchanged and not among its tables, and no leaf of the target is
above a leaf of the old tree. The index variables carry the path of the table
the loop is in. Everything is stated for twins, two machines in step, so that
one induction serves both for what one run does and for comparing two.
-/

open PageTableEntry RadixHeap

variable {σ : Type} {A : PageAllocator σ} {hhdm : BitVec 64} {old new : TablePtr}
variable {s₀ s s' s'' : Machine σ} {limit : ℕ}

/-- **What cloning may do to the target**: a slot is what it was, or was free
and holds what the old tree has there. -/
def Copied (hhdm : BitVec 64) (old new : TablePtr) (s₀ s s' : Machine σ) : Prop :=
  ∀ q, pageSlot hhdm s'.mem new q = pageSlot hhdm s.mem new q ∨
    (pageSlot hhdm s.mem new q = .empty ∧
      ((∃ e, pageSlot hhdm s₀.mem old q = .leaf e ∧ pageSlot hhdm s'.mem new q = .leaf e) ∨
        ∃ t c, pageSlot hhdm s₀.mem old q = .table t ∧ pageSlot hhdm s'.mem new q = .table c))

namespace Copied

theorem refl (s : Machine σ) : Copied hhdm old new s₀ s s := fun _ => Or.inl rfl

theorem trans (h : Copied hhdm old new s₀ s s') (h' : Copied hhdm old new s₀ s' s'') :
    Copied hhdm old new s₀ s s'' := by
  intro q
  rcases h q with hq | ⟨hemp, hcopy⟩
  · rcases h' q with hq' | ⟨hemp', hcopy'⟩
    · exact Or.inl (hq'.trans hq)
    · exact Or.inr ⟨hq ▸ hemp', hcopy'⟩
  · refine Or.inr ⟨hemp, ?_⟩
    have hkept : pageSlot hhdm s''.mem new q = pageSlot hhdm s'.mem new q := by
      rcases h' q with hq' | ⟨hemp', -⟩
      · exact hq'
      · rcases hcopy with ⟨e, -, he⟩ | ⟨t, c, -, hc⟩
        · cases hemp'.symm.trans he
        · cases hemp'.symm.trans hc
    rwa [hkept]

/-- A slot in use stays in use. -/
theorem ne_empty (h : Copied hhdm old new s₀ s s') {q : List TableIndex}
    (hq : pageSlot hhdm s.mem new q ≠ .empty) : pageSlot hhdm s'.mem new q ≠ .empty := by
  rcases h q with hsame | ⟨hemp, -⟩
  · rwa [hsame]
  · exact absurd hemp hq

end Copied

/-- **The invariant of a clone.** -/
structure CopyInv (A : PageAllocator σ) (hhdm : BitVec 64) (old new : TablePtr)
    (s₀ : Machine σ) (limit : ℕ) (used : Set TablePtr) (s : Machine σ) : Prop where
  state : MapState A hhdm new limit used s
  old_used : pageTables hhdm s₀.mem old ⊆ used
  /-- The old tables are none of the target's. -/
  old_apart : ∀ t ∈ pageTables hhdm s₀.mem old, t ∉ pageTables hhdm s.mem new
  /-- The old tables are unchanged. -/
  old_same : ∀ t ∈ pageTables hhdm s₀.mem old, s.mem t = s₀.mem t
  /-- No leaf of the target is above a leaf of the old tree. -/
  clear : ∀ p q e, pageSlot hhdm s₀.mem old p = .leaf e → q <+: p → q ≠ p →
    (pageSlot hhdm s.mem new q).leaf? = none

/-- The invariant, for some set of pages in use. -/
def CopyState (A : PageAllocator σ) (hhdm : BitVec 64) (old new : TablePtr) (s₀ : Machine σ)
    (limit : ℕ) (s : Machine σ) : Prop :=
  ∃ used, CopyInv A hhdm old new s₀ limit used s

/-- The index variables, the outermost first. -/
def CloneState.indices (cs : CloneState σ) : List TableIndex :=
  [cs.pml4Idx, cs.pdprIdx, cs.pdIdx, cs.ptIdx]

/-- The index variables say that the table at `p` is being cloned. -/
def AtPath (p : List TableIndex) (cs : CloneState σ) : Prop := cs.indices.take p.length = p

theorem atPath_nil (cs : CloneState σ) : AtPath [] cs := rfl

/-- Two clones in step: twins with the same index variables. -/
structure CloneTwin (hhdm : BitVec 64) (new : TablePtr) (K : Set TablePtr)
    (cs cz : CloneState σ) : Prop where
  machine : Twin hhdm new K cs.machine cz.machine
  indices : cs.indices = cz.indices

theorem CloneTwin.refl {K : Set TablePtr} (cs : CloneState σ) : CloneTwin hhdm new K cs cs :=
  ⟨Twin.refl _, rfl⟩

/-- The fields of two clones in step. -/
theorem CloneTwin.fields {K : Set TablePtr} {cs cz : CloneState σ}
    (h : CloneTwin hhdm new K cs cz) :
    cs.pml4Idx = cz.pml4Idx ∧ cs.pdprIdx = cz.pdprIdx ∧ cs.pdIdx = cz.pdIdx
      ∧ cs.ptIdx = cz.ptIdx := by
  simpa [CloneState.indices] using h.indices

/-- The index variables of a table are those of the table above it. -/
theorem AtPath.of_snoc {p : List TableIndex} {i : TableIndex} {cs : CloneState σ}
    (h : AtPath (p ++ [i]) cs) : AtPath p cs := by
  have htake := congrArg (List.take p.length) h
  rwa [List.take_take, List.length_append, List.length_singleton,
    Nat.min_eq_left (Nat.le_succ _), List.take_left' rfl] at htake

/-- **What a part of a clone achieves**, from a state `s`, with `cs'` and `cz'`
the states two clones in step come to: `P` says which paths it was about. -/
structure CopyStep (A : PageAllocator σ) (hhdm : BitVec 64) (old new : TablePtr)
    (s₀ : Machine σ) (limit : ℕ) (P : List TableIndex → Prop) (s : Machine σ)
    (cs' cz' : CloneState σ) : Prop where
  state : CopyState A hhdm old new s₀ limit cs'.machine
  copied : Copied hhdm old new s₀ s cs'.machine
  /-- Where the old tree has a leaf, the target has something. -/
  filled : ∀ q e, P q → pageSlot hhdm s₀.mem old q = .leaf e →
    pageSlot hhdm cs'.machine.mem new q ≠ .empty
  twin : CloneTwin hhdm new (pageTables hhdm s₀.mem old) cs' cz'

/-! ## One leaf -/

/-- The flags of a leaf make a leaf. -/
theorem leafFlags_getFlags {size : PageSize} {e : PageTableEntry} (hp : e.present = true)
    (hs : size ≠ .kb4 → e.pageSize = true) :
    LeafFlags size (pagingGetFlagsFromEntry e size.level .page) := by
  rw [present] at hp
  rw [pageSize] at hs
  cases size with
  | kb4 => simp [LeafFlags, pagingGetFlagsFromEntry, PageSize.level, hp]
  | mb2 =>
    have hs' := hs (by simp)
    simp_all [LeafFlags, pagingGetFlagsFromEntry, PageSize.level]
  | gb1 =>
    have hs' := hs (by simp)
    simp_all [LeafFlags, pagingGetFlagsFromEntry, PageSize.level]

/-- The entry of a leaf says that it is one. -/
theorem leafFlags_of_pageSlot {size : PageSize} {virt : BitVec 64} {e : PageTableEntry}
    (h : pageSlot hhdm s.mem old (pagePath size virt) = .leaf e) :
    LeafFlags size (pagingGetFlagsFromEntry e size.level .page) := by
  rw [pagePath_eq_snoc] at h
  obtain ⟨t, -, -, -, hp, hs, rfl⟩ := entry_of_pageSlot_leaf h
  refine leafFlags_getFlags hp fun hne => hs ?_
  cases size with
  | kb4 => exact absurd rfl hne
  | mb2 => exact (by decide : (2 : ℕ) ≠ 3)
  | gb1 => exact (by decide : (1 : ℕ) ≠ 3)

/-- Above a leaf there are tables. -/
theorem exists_table_of_prefix {p q : List TableIndex} {e : PageTableEntry}
    (he : pageSlot hhdm s.mem old p = .leaf e) (hq : q <+: p) (hne : q ≠ p) :
    ∃ t, pageSlot hhdm s.mem old q = .table t := by
  obtain ⟨r, rfl⟩ := hq
  have hr : r ≠ [] := by
    rintro rfl
    exact hne (List.append_nil q).symm
  refine exists_table_of_append hr ?_
  rw [show slotAt (entrySlot hhdm) s.mem old (q ++ r) = .leaf e from he]
  simp

/-- **Copying a leaf** into a target that has nothing there. -/
theorem CopyInv.mapped {used used' : Set TablePtr} {p : List TableIndex} {e : PageTableEntry}
    (h : CopyInv A hhdm old new s₀ limit used s) (hO : pageSlot hhdm s₀.mem old p = .leaf e)
    (hm : Mapped A hhdm new limit p e used s used' s') :
    CopyInv A hhdm old new s₀ limit used' s' where
  state := hm.state
  old_used := h.old_used.trans hm.used_subset
  old_apart t ht hmem := h.old_apart t ht (hm.tables_of_used t (h.old_used ht) hmem)
  old_same t ht := by rw [hm.frame t (h.old_used ht) (h.old_apart t ht), h.old_same t ht]
  clear p' q e' hO' hq hne := by
    by_cases hqp : q = p
    · obtain ⟨t, ht⟩ := exists_table_of_prefix hO' hq hne
      rw [hqp, hO] at ht
      cases ht
    · rcases hm.slots q hqp with hsame | ⟨-, -, c, hc⟩
      · rw [hsame]
        exact h.clear p' q e' hO' hq hne
      · rw [hc]
        rfl

theorem Copied.of_mapped {used used' : Set TablePtr} {p : List TableIndex} {e : PageTableEntry}
    (hfree : pageSlot hhdm s.mem new p = .empty) (hO : pageSlot hhdm s₀.mem old p = .leaf e)
    (hm : Mapped A hhdm new limit p e used s used' s') : Copied hhdm old new s₀ s s' := by
  intro q
  by_cases hqp : q = p
  · exact Or.inr ⟨hqp ▸ hfree, Or.inl ⟨e, hqp ▸ hO, hqp ▸ hm.leaf⟩⟩
  · rcases hm.slots q hqp with hsame | ⟨hemp, hpre, c, hc⟩
    · exact Or.inl hsame
    · obtain ⟨t, ht⟩ := exists_table_of_prefix hO hpre hqp
      exact Or.inr ⟨hemp, Or.inr ⟨t, c, ht, hc⟩⟩

/-- Above the slot of a leaf of the old tree, the target has no leaf. -/
theorem CopyInv.clear_above {used : Set TablePtr} {size : PageSize} {virt : BitVec 64}
    {e : PageTableEntry} {q : List TableIndex} (h : CopyInv A hhdm old new s₀ limit used s)
    (hO : pageSlot hhdm s₀.mem old (pagePath size virt) = .leaf e)
    (hq : q <+: tablePath size virt) : (pageSlot hhdm s.mem new q).leaf? = none := by
  refine h.clear _ q e hO (hq.trans ?_) ?_
  · rw [pagePath_eq_snoc]
    exact List.prefix_append _ _
  · rintro rfl
    have hle := hq.length_le
    rw [pagePath_eq_snoc, List.length_append, List.length_singleton] at hle
    omega

/-- **The leaf case of a clone.** -/
theorem cloneLeaf_copy (hw : hhdm.toNat + 2 ^ 40 ≤ 2 ^ 64) {size : PageSize} {virt : BitVec 64}
    {e : PageTableEntry} {cs cz : CloneState σ}
    (htwin : CloneTwin hhdm new (pageTables hhdm s₀.mem old) cs cz)
    (h : CopyState A hhdm old new s₀ limit cs.machine)
    (hlimit : (cloneLeaf A hhdm new size e virt cs).machine.allocs ≤ limit)
    (hO : pageSlot hhdm s₀.mem old (pagePath size virt) = .leaf e) :
    CopyStep A hhdm old new s₀ limit (pagePath size virt <+: ·) cs.machine
      (cloneLeaf A hhdm new size e virt cs) (cloneLeaf A hhdm new size e virt cz) := by
  obtain ⟨used, h⟩ := h
  have hflags := leafFlags_of_pageSlot hO
  have habove := fun q hq => h.clear_above (q := q) hO hq
  -- nothing of the old tree is below the leaf
  have hbelow : ∀ q e', pagePath size virt <+: q → pageSlot hhdm s₀.mem old q = .leaf e' →
      q = pagePath size virt := by
    intro q e' hq he'
    by_contra hne
    obtain ⟨t, ht⟩ := exists_table_of_prefix he' hq (Ne.symm hne)
    rw [hO] at ht
    cases ht
  have htwin' : CloneTwin hhdm new (pageTables hhdm s₀.mem old)
      (cloneLeaf A hhdm new size e virt cs) (cloneLeaf A hhdm new size e virt cz) :=
    ⟨twin_pagingMapPage hw htwin.machine h.state hlimit hflags habove, htwin.indices⟩
  by_cases hfree : pageSlot hhdm cs.machine.mem new (pagePath size virt) = .empty
  · obtain ⟨used', s', hrun, hm⟩ := pagingMapPage_of_free hw h.state hlimit hflags habove hfree
    rw [pagingCreateEntry_pageBase_getFlags] at hm
    have hmachine : (cloneLeaf A hhdm new size e virt cs).machine = s' := by
      rw [cloneLeaf, hrun]
    refine ⟨⟨used', ?_⟩, ?_, fun q e' hq he' => ?_, htwin'⟩
    · rw [hmachine]
      exact h.mapped hO hm
    · rw [hmachine]
      exact Copied.of_mapped hfree hO hm
    · rw [hbelow q e' hq he', hmachine, hm.leaf]
      simp
  · have hmachine : (cloneLeaf A hhdm new size e virt cs).machine = cs.machine := by
      rw [cloneLeaf, pagingMapPage_of_occupied _ _ hfree]
    refine ⟨⟨used, ?_⟩, ?_, fun q e' hq he' => ?_, htwin'⟩
    · rw [hmachine]
      exact h
    · rw [hmachine]
      exact Copied.refl _
    · rw [hbelow q e' hq he', hmachine]
      exact hfree

/-! ## The loop over a table -/

/-- A relation between machines that every mapping in the target keeps to. -/
structure MapRel (A : PageAllocator σ) (hhdm : BitVec 64) (new : TablePtr)
    (R : Machine σ → Machine σ → Prop) : Prop where
  refl : ∀ s, R s s
  trans : ∀ s s' s'', R s s' → R s' s'' → R s s''
  map : ∀ phys virt size flags s,
    R s (pagingMapPageWithoutTlbInvalidation A hhdm new phys virt size flags s).2

/-- A part of a clone keeps to a relation between machines. -/
def Keeps (R : Machine σ → Machine σ → Prop) (f : CloneState σ → CloneState σ) : Prop :=
  ∀ cs cs', f cs = cs' → R cs.machine cs'.machine

/-- What the loop at level `PT` does with an entry. -/
def clonePtEntry (A : PageAllocator σ) (hhdm : BitVec 64) (new pt : TablePtr) (i : TableIndex)
    (s : CloneState σ) : CloneState σ :=
  let s := { s with ptIdx := i }
  cloneLeaf A hhdm new .kb4 (s.machine.mem pt i)
    (pagingGetVirtAddressFromIndices s.pml4Idx s.pdprIdx s.pdIdx s.ptIdx) s

/-- What the loop at level `PD` does with an entry. -/
def clonePdEntry (A : PageAllocator σ) (hhdm : BitVec 64) (new pd : TablePtr) (i : TableIndex)
    (s : CloneState σ) : CloneState σ :=
  let s := { s with pdIdx := i }
  let entry := s.machine.mem pd i
  if entry.pageSize = true then
    cloneLeaf A hhdm new .mb2 entry
      (pagingGetVirtAddressFromIndices s.pml4Idx s.pdprIdx s.pdIdx 0) s
  else
    clonePt A hhdm new (entry.tableAddress + hhdm) s

/-- What the loop at level `PDPR` does with an entry. -/
def clonePdprEntry (A : PageAllocator σ) (hhdm : BitVec 64) (new pdpr : TablePtr) (i : TableIndex)
    (s : CloneState σ) : CloneState σ :=
  let s := { s with pdprIdx := i }
  let entry := s.machine.mem pdpr i
  if entry.pageSize = true then
    cloneLeaf A hhdm new .gb1 entry
      (pagingGetVirtAddressFromIndices s.pml4Idx s.pdprIdx 0 0) s
  else
    clonePd A hhdm new (entry.tableAddress + hhdm) s

/-- What the loop at level `PML4` does with an entry. -/
def clonePml4Entry (A : PageAllocator σ) (hhdm : BitVec 64) (new old : TablePtr) (i : TableIndex)
    (s : CloneState σ) : CloneState σ :=
  let s := { s with pml4Idx := i }
  clonePdpr A hhdm new ((s.machine.mem old i).tableAddress + hhdm) s

namespace MapRel

variable {R : Machine σ → Machine σ → Prop} (hR : MapRel A hhdm new R)
include hR

/-- Going through some entries of a table. -/
theorem foldl {table : TablePtr} {body : TableIndex → CloneState σ → CloneState σ}
    (hbody : ∀ i, Keeps R (body i)) (is : List TableIndex) (cs : CloneState σ) :
    R cs.machine (is.foldl (fun cs i =>
      if (cs.machine.mem table i).present = true then body i cs else cs) cs).machine := by
  induction is generalizing cs with
  | nil => exact hR.refl _
  | cons i is ih =>
    rw [List.foldl_cons]
    refine hR.trans _ _ _ ?_ (ih _)
    by_cases hp : (cs.machine.mem table i).present = true
    · rw [if_pos hp]
      exact hbody i cs _ rfl
    · rw [if_neg hp]
      exact hR.refl _

theorem loop {table : TablePtr} {body : TableIndex → CloneState σ → CloneState σ}
    (hbody : ∀ i, Keeps R (body i)) : Keeps R (forPresentEntries table body) := by
  rintro cs _ rfl
  exact hR.foldl hbody tableIndices cs

theorem leaf (size : PageSize) (e : PageTableEntry) (virt : BitVec 64) :
    Keeps R (cloneLeaf A hhdm new size e virt) :=
  fun _ _ h => h ▸ hR.map _ _ _ _ _

theorem ptEntry (pt : TablePtr) (i : TableIndex) : Keeps R (clonePtEntry A hhdm new pt i) :=
  fun cs cs' h => hR.leaf _ _ _ { cs with ptIdx := i } cs' h

theorem pdEntry (pd : TablePtr) (i : TableIndex) : Keeps R (clonePdEntry A hhdm new pd i) := by
  intro cs cs' h
  unfold clonePdEntry at h
  by_cases hs : (cs.machine.mem pd i).pageSize = true
  · simp only [if_pos hs] at h
    exact hR.leaf _ _ _ { cs with pdIdx := i } cs' h
  · simp only [if_neg hs] at h
    exact hR.loop (hR.ptEntry _) { cs with pdIdx := i } cs' h

theorem pdprEntry (pdpr : TablePtr) (i : TableIndex) :
    Keeps R (clonePdprEntry A hhdm new pdpr i) := by
  intro cs cs' h
  unfold clonePdprEntry at h
  by_cases hs : (cs.machine.mem pdpr i).pageSize = true
  · simp only [if_pos hs] at h
    exact hR.leaf _ _ _ { cs with pdprIdx := i } cs' h
  · simp only [if_neg hs] at h
    exact hR.loop (hR.pdEntry _) { cs with pdprIdx := i } cs' h

theorem pml4Entry (i : TableIndex) : Keeps R (clonePml4Entry A hhdm new old i) := by
  intro cs cs' h
  unfold clonePml4Entry at h
  exact hR.loop (hR.pdprEntry _) { cs with pml4Idx := i } cs' h

/-- **The whole copying keeps to the relation.** -/
theorem pml4 : Keeps R (clonePml4 A hhdm new old) := hR.loop hR.pml4Entry

end MapRel

/-- The number of calls of `pmm_alloc` does not go down. -/
theorem mapRel_allocs : MapRel A hhdm new fun s s' => s.allocs ≤ s'.allocs where
  refl _ := le_rfl
  trans _ _ _ := le_trans
  map phys virt size flags s := (allocs_pagingMapPage phys virt size flags s).1

/-- There is no leaf under an entry that is not present. -/
theorem not_leaf_of_not_present {p q : List TableIndex} {i : TableIndex} {t : TablePtr}
    {e : PageTableEntry} (ht : pageSlot hhdm s.mem old p = .table t)
    (hp : (s.mem t i).present = false) (hq : p ++ [i] <+: q) :
    pageSlot hhdm s.mem old q ≠ .leaf e := by
  intro he
  have hemp : pageSlot hhdm s.mem old (p ++ [i]) = .empty := by
    rw [pageSlot, slotAt_snoc_of_table ht]
    exact entrySlot_of_not_present hp _
  by_cases hqi : p ++ [i] = q
  · rw [← hqi, hemp] at he
    cases he
  · obtain ⟨u, hu⟩ := exists_table_of_prefix he hq hqi
    rw [hemp] at hu
    cases hu

/-- **The body of a loop** over the table `t` at the path `p` clones what lies
under one entry, with the index variables of the path as they were. -/
def ClonesEntry (A : PageAllocator σ) (hhdm : BitVec 64) (old new : TablePtr) (s₀ : Machine σ)
    (limit : ℕ) (p : List TableIndex) (t : TablePtr)
    (body : TableIndex → CloneState σ → CloneState σ) : Prop :=
  ∀ i (cs cz : CloneState σ), CopyState A hhdm old new s₀ limit cs.machine → AtPath p cs →
    CloneTwin hhdm new (pageTables hhdm s₀.mem old) cs cz → (s₀.mem t i).present = true →
    (body i cs).machine.allocs ≤ limit →
    CopyStep A hhdm old new s₀ limit (p ++ [i] <+: ·) cs.machine (body i cs) (body i cz)
      ∧ AtPath p (body i cs)

/-- The entries under a list of indices, cloned one after the other. -/
theorem foldl_copy {p : List TableIndex} {t : TablePtr}
    {body : TableIndex → CloneState σ → CloneState σ}
    (hO : pageSlot hhdm s₀.mem old p = .table t)
    (hallocs : ∀ i, Keeps (fun s s' => s.allocs ≤ s'.allocs) (body i))
    (hbody : ClonesEntry A hhdm old new s₀ limit p t body) (is : List TableIndex)
    {cs cz : CloneState σ} (h : CopyState A hhdm old new s₀ limit cs.machine) (hat : AtPath p cs)
    (htwin : CloneTwin hhdm new (pageTables hhdm s₀.mem old) cs cz)
    (hlimit : (is.foldl (fun cs i => if (cs.machine.mem t i).present = true then body i cs else cs)
      cs).machine.allocs ≤ limit) :
    CopyStep A hhdm old new s₀ limit (fun q => ∃ i ∈ is, p ++ [i] <+: q) cs.machine
        (is.foldl (fun cs i => if (cs.machine.mem t i).present = true then body i cs else cs) cs)
        (is.foldl (fun cs i => if (cs.machine.mem t i).present = true then body i cs else cs) cz)
      ∧ AtPath p (is.foldl (fun cs i =>
        if (cs.machine.mem t i).present = true then body i cs else cs) cs) := by
  have hmono : MapRel A hhdm new fun s s' => s.allocs ≤ s'.allocs := mapRel_allocs
  induction is generalizing cs cz with
  | nil =>
    exact ⟨⟨h, Copied.refl _, fun q e hex => absurd hex.choose_spec.1 List.not_mem_nil, htwin⟩,
      hat⟩
  | cons i is ih =>
    rw [List.foldl_cons] at hlimit
    rw [List.foldl_cons, List.foldl_cons]
    have ht := mem_tables hO
    have hpresent : (cs.machine.mem t i).present = (s₀.mem t i).present := by
      obtain ⟨used, h⟩ := h
      rw [h.old_same t ht]
    have hpresent' : (cz.machine.mem t i).present = (s₀.mem t i).present := by
      rw [← hpresent, (htwin.machine.entries t (Or.inr ht) i).present_eq]
    rw [hpresent] at hlimit ⊢
    rw [hpresent']
    by_cases hp : (s₀.mem t i).present = true
    · rw [if_pos hp] at hlimit ⊢
      rw [if_pos hp]
      have hfirst := le_trans (hmono.foldl hallocs is (body i cs)) hlimit
      obtain ⟨hstep, hat'⟩ := hbody i cs cz h hat htwin hp hfirst
      obtain ⟨hrest, hat''⟩ := ih hstep.state hat' hstep.twin hlimit
      refine ⟨⟨hrest.state, hstep.copied.trans hrest.copied, ?_, hrest.twin⟩, hat''⟩
      rintro q e ⟨j, hj, hq⟩ he
      rcases List.mem_cons.mp hj with rfl | hj
      · exact hrest.copied.ne_empty (hstep.filled q e hq he)
      · exact hrest.filled q e ⟨j, hj, hq⟩ he
    · rw [if_neg hp] at hlimit ⊢
      rw [if_neg hp]
      obtain ⟨hrest, hat'⟩ := ih h hat htwin hlimit
      refine ⟨⟨hrest.state, hrest.copied, ?_, hrest.twin⟩, hat'⟩
      rintro q e ⟨j, hj, hq⟩ he
      rcases List.mem_cons.mp hj with rfl | hj
      · exact absurd he (not_leaf_of_not_present hO (by simpa using hp) hq)
      · exact hrest.filled q e ⟨j, hj, hq⟩ he

/-- **The loop rule.** If the body clones what lies under one entry of the table
at `p`, the loop clones what lies under the table. -/
theorem forPresentEntries_copy {p : List TableIndex} {t : TablePtr}
    {body : TableIndex → CloneState σ → CloneState σ}
    (hO : pageSlot hhdm s₀.mem old p = .table t)
    (hallocs : ∀ i, Keeps (fun s s' => s.allocs ≤ s'.allocs) (body i))
    (hbody : ClonesEntry A hhdm old new s₀ limit p t body)
    {cs cz : CloneState σ} (h : CopyState A hhdm old new s₀ limit cs.machine) (hat : AtPath p cs)
    (htwin : CloneTwin hhdm new (pageTables hhdm s₀.mem old) cs cz)
    (hlimit : (forPresentEntries t body cs).machine.allocs ≤ limit) :
    CopyStep A hhdm old new s₀ limit (p <+: ·) cs.machine (forPresentEntries t body cs)
        (forPresentEntries t body cz)
      ∧ AtPath p (forPresentEntries t body cs) := by
  unfold forPresentEntries at hlimit ⊢
  obtain ⟨hstep, hat'⟩ := foldl_copy hO hallocs hbody tableIndices h hat htwin hlimit
  refine ⟨⟨hstep.state, hstep.copied, fun q e hq he => ?_, hstep.twin⟩, hat'⟩
  obtain ⟨r, rfl⟩ := hq
  cases r with
  | nil =>
    rw [List.append_nil, hO] at he
    cases he
  | cons i r =>
    exact hstep.filled _ e ⟨i, mem_tableIndices i, r, (List.append_cons p i r).symm⟩ he

/-! ## The four levels -/

/-- The indices an address was assembled from are the path of its page. -/
theorem pagePath_assembled (size : PageSize) (a b c d : TableIndex) :
    pagePath size (pagingGetVirtAddressFromIndices a b c d)
      = [a, b, c, d].take size.pathLength := by
  cases size <;> simp [pagePath, PageSize.pathLength, pml4Idx_assembled, pdprIdx_assembled,
    pdIdx_assembled, ptIdx_assembled]

variable {p : List TableIndex} {t : TablePtr} {cs cz : CloneState σ}

/-- The entry of an old table, in either of two clones in step. -/
theorem old_entry {i : TableIndex} (h : CopyState A hhdm old new s₀ limit cs.machine)
    (htwin : CloneTwin hhdm new (pageTables hhdm s₀.mem old) cs cz)
    (hO : pageSlot hhdm s₀.mem old p = .table t) (hp : (s₀.mem t i).present = true) :
    cs.machine.mem t i = s₀.mem t i ∧ cz.machine.mem t i = s₀.mem t i := by
  obtain ⟨used, h⟩ := h
  have hcs : cs.machine.mem t i = s₀.mem t i := by rw [h.old_same t (mem_tables hO)]
  have hsame := htwin.machine.entries t (Or.inr (mem_tables hO)) i
  rw [← hcs] at hp
  exact ⟨hcs, by rw [← hsame.eq_of_present hp, hcs]⟩

/-- **Level `PT`**, one entry. -/
theorem clonesEntry_pt (hw : hhdm.toNat + 2 ^ 40 ≤ 2 ^ 64) (hlen : p.length = 3)
    (hO : pageSlot hhdm s₀.mem old p = .table t) :
    ClonesEntry A hhdm old new s₀ limit p t (clonePtEntry A hhdm new t) := by
  intro i cs cz h hat htwin hp hlimit
  obtain ⟨hcs, hcz⟩ := old_entry h htwin hO hp
  obtain ⟨h₁, h₂, h₃, -⟩ := htwin.fields
  have hleaf : pageSlot hhdm s₀.mem old (p ++ [i]) = .leaf (s₀.mem t i) := by
    rw [pageSlot, slotAt_snoc_of_table hO, hlen]
    simp [entrySlot, hp]
  have hpath : pagePath .kb4 (pagingGetVirtAddressFromIndices cs.pml4Idx cs.pdprIdx cs.pdIdx i)
      = p ++ [i] := by
    rw [AtPath, hlen] at hat
    rw [pagePath_assembled, ← hat]
    rfl
  have htwin' : CloneTwin hhdm new (pageTables hhdm s₀.mem old) { cs with ptIdx := i }
      { cz with ptIdx := i } := ⟨htwin.machine, by simp [CloneState.indices, h₁, h₂, h₃]⟩
  unfold clonePtEntry at hlimit ⊢
  simp only [hcs, hcz, ← h₁, ← h₂, ← h₃] at hlimit htwin' ⊢
  rw [← hpath] at hleaf
  refine ⟨hpath ▸ cloneLeaf_copy hw htwin' h hlimit hleaf, ?_⟩
  rwa [AtPath, hlen] at hat ⊢

/-- **Level `PT`.** -/
theorem clonePt_copy (hw : hhdm.toNat + 2 ^ 40 ≤ 2 ^ 64)
    (htwin : CloneTwin hhdm new (pageTables hhdm s₀.mem old) cs cz) (hat : AtPath p cs)
    (hlen : p.length = 3) (hO : pageSlot hhdm s₀.mem old p = .table t)
    (h : CopyState A hhdm old new s₀ limit cs.machine)
    (hlimit : (clonePt A hhdm new t cs).machine.allocs ≤ limit) :
    CopyStep A hhdm old new s₀ limit (p <+: ·) cs.machine (clonePt A hhdm new t cs)
        (clonePt A hhdm new t cz)
      ∧ AtPath p (clonePt A hhdm new t cs) :=
  forPresentEntries_copy hO (mapRel_allocs.ptEntry t) (clonesEntry_pt hw hlen hO) h hat htwin hlimit

/-- **Level `PD`**, one entry. -/
theorem clonesEntry_pd (hw : hhdm.toNat + 2 ^ 40 ≤ 2 ^ 64) (hlen : p.length = 2)
    (hO : pageSlot hhdm s₀.mem old p = .table t) :
    ClonesEntry A hhdm old new s₀ limit p t (clonePdEntry A hhdm new t) := by
  intro i cs cz h hat htwin hp hlimit
  obtain ⟨hcs, hcz⟩ := old_entry h htwin hO hp
  obtain ⟨h₁, h₂, -, h₄⟩ := htwin.fields
  have hread : pageSlot hhdm s₀.mem old (p ++ [i]) = entrySlot hhdm 2 (s₀.mem t i) := by
    rw [pageSlot, slotAt_snoc_of_table hO, hlen]
  have hat' : AtPath (p ++ [i]) { cs with pdIdx := i } := by
    rw [AtPath, hlen] at hat
    rw [AtPath, List.length_append, hlen, ← hat]
    rfl
  have htwin' : CloneTwin hhdm new (pageTables hhdm s₀.mem old) { cs with pdIdx := i }
      { cz with pdIdx := i } := ⟨htwin.machine, by simp [CloneState.indices, h₁, h₂, h₄]⟩
  unfold clonePdEntry at hlimit ⊢
  simp only [hcs, hcz] at hlimit ⊢
  by_cases hs : (s₀.mem t i).pageSize = true
  · have hpath : pagePath .mb2 (pagingGetVirtAddressFromIndices cs.pml4Idx cs.pdprIdx i 0)
        = p ++ [i] := by
      rw [AtPath, hlen] at hat
      rw [pagePath_assembled, ← hat]
      rfl
    simp only [if_pos hs, ← h₁, ← h₂] at hlimit htwin' ⊢
    rw [← hpath] at hread
    refine ⟨hpath ▸ cloneLeaf_copy hw htwin' h hlimit
      (hread.trans (by simp [entrySlot, hp, hs])), ?_⟩
    rwa [AtPath, hlen] at hat ⊢
  · simp only [if_neg hs] at hlimit ⊢
    have hstep := clonePt_copy hw htwin' hat' (by rw [List.length_append, hlen]; rfl)
      (by simp [hread, entrySlot, hp, hs]) h hlimit
    exact ⟨hstep.1, hstep.2.of_snoc⟩

/-- **Level `PD`.** -/
theorem clonePd_copy (hw : hhdm.toNat + 2 ^ 40 ≤ 2 ^ 64)
    (htwin : CloneTwin hhdm new (pageTables hhdm s₀.mem old) cs cz) (hat : AtPath p cs)
    (hlen : p.length = 2) (hO : pageSlot hhdm s₀.mem old p = .table t)
    (h : CopyState A hhdm old new s₀ limit cs.machine)
    (hlimit : (clonePd A hhdm new t cs).machine.allocs ≤ limit) :
    CopyStep A hhdm old new s₀ limit (p <+: ·) cs.machine (clonePd A hhdm new t cs)
        (clonePd A hhdm new t cz)
      ∧ AtPath p (clonePd A hhdm new t cs) :=
  forPresentEntries_copy hO (mapRel_allocs.pdEntry t) (clonesEntry_pd hw hlen hO) h hat htwin hlimit

/-- **Level `PDPR`**, one entry. -/
theorem clonesEntry_pdpr (hw : hhdm.toNat + 2 ^ 40 ≤ 2 ^ 64) (hlen : p.length = 1)
    (hO : pageSlot hhdm s₀.mem old p = .table t) :
    ClonesEntry A hhdm old new s₀ limit p t (clonePdprEntry A hhdm new t) := by
  intro i cs cz h hat htwin hp hlimit
  obtain ⟨hcs, hcz⟩ := old_entry h htwin hO hp
  obtain ⟨h₁, -, h₃, h₄⟩ := htwin.fields
  have hread : pageSlot hhdm s₀.mem old (p ++ [i]) = entrySlot hhdm 1 (s₀.mem t i) := by
    rw [pageSlot, slotAt_snoc_of_table hO, hlen]
  have hat' : AtPath (p ++ [i]) { cs with pdprIdx := i } := by
    rw [AtPath, hlen] at hat
    rw [AtPath, List.length_append, hlen, ← hat]
    rfl
  have htwin' : CloneTwin hhdm new (pageTables hhdm s₀.mem old) { cs with pdprIdx := i }
      { cz with pdprIdx := i } := ⟨htwin.machine, by simp [CloneState.indices, h₁, h₃, h₄]⟩
  unfold clonePdprEntry at hlimit ⊢
  simp only [hcs, hcz] at hlimit ⊢
  by_cases hs : (s₀.mem t i).pageSize = true
  · have hpath : pagePath .gb1 (pagingGetVirtAddressFromIndices cs.pml4Idx i 0 0) = p ++ [i] := by
      rw [AtPath, hlen] at hat
      rw [pagePath_assembled, ← hat]
      rfl
    simp only [if_pos hs, ← h₁] at hlimit htwin' ⊢
    rw [← hpath] at hread
    refine ⟨hpath ▸ cloneLeaf_copy hw htwin' h hlimit
      (hread.trans (by simp [entrySlot, hp, hs])), ?_⟩
    rwa [AtPath, hlen] at hat ⊢
  · simp only [if_neg hs] at hlimit ⊢
    have hstep := clonePd_copy hw htwin' hat' (by rw [List.length_append, hlen]; rfl)
      (by simp [hread, entrySlot, hp, hs]) h hlimit
    exact ⟨hstep.1, hstep.2.of_snoc⟩

/-- **Level `PDPR`.** -/
theorem clonePdpr_copy (hw : hhdm.toNat + 2 ^ 40 ≤ 2 ^ 64)
    (htwin : CloneTwin hhdm new (pageTables hhdm s₀.mem old) cs cz) (hat : AtPath p cs)
    (hlen : p.length = 1) (hO : pageSlot hhdm s₀.mem old p = .table t)
    (h : CopyState A hhdm old new s₀ limit cs.machine)
    (hlimit : (clonePdpr A hhdm new t cs).machine.allocs ≤ limit) :
    CopyStep A hhdm old new s₀ limit (p <+: ·) cs.machine (clonePdpr A hhdm new t cs)
        (clonePdpr A hhdm new t cz)
      ∧ AtPath p (clonePdpr A hhdm new t cs) :=
  forPresentEntries_copy hO (mapRel_allocs.pdprEntry t) (clonesEntry_pdpr hw hlen hO) h hat htwin
    hlimit

/-- **Level `PML4`**, one entry. -/
theorem clonesEntry_pml4 (hw : hhdm.toNat + 2 ^ 40 ≤ 2 ^ 64) :
    ClonesEntry A hhdm old new s₀ limit [] old (clonePml4Entry A hhdm new old) := by
  intro i cs cz h hat htwin hp hlimit
  have hroot : pageSlot hhdm s₀.mem old [] = .table old := rfl
  obtain ⟨hcs, hcz⟩ := old_entry h htwin hroot hp
  obtain ⟨-, h₂, h₃, h₄⟩ := htwin.fields
  have htable : pageSlot hhdm s₀.mem old [i] = .table ((s₀.mem old i).tableAddress + hhdm) := by
    rw [show [i] = [] ++ [i] from rfl, pageSlot, slotAt_snoc_of_table hroot]
    simp [entrySlot, hp]
  have htwin' : CloneTwin hhdm new (pageTables hhdm s₀.mem old) { cs with pml4Idx := i }
      { cz with pml4Idx := i } := ⟨htwin.machine, by simp [CloneState.indices, h₂, h₃, h₄]⟩
  unfold clonePml4Entry at hlimit ⊢
  simp only [hcs, hcz] at hlimit ⊢
  have hpdpr := clonePdpr_copy hw htwin' (p := [i]) rfl rfl htable h hlimit
  exact ⟨hpdpr.1, atPath_nil _⟩

/-- **Level `PML4`.** -/
theorem clonePml4_copy (hw : hhdm.toNat + 2 ^ 40 ≤ 2 ^ 64)
    (htwin : CloneTwin hhdm new (pageTables hhdm s₀.mem old) cs cz)
    (h : CopyState A hhdm old new s₀ limit cs.machine)
    (hlimit : (clonePml4 A hhdm new old cs).machine.allocs ≤ limit) :
    CopyStep A hhdm old new s₀ limit ([] <+: ·) cs.machine (clonePml4 A hhdm new old cs)
        (clonePml4 A hhdm new old cz)
      ∧ AtPath [] (clonePml4 A hhdm new old cs) :=
  forPresentEntries_copy (by rfl) mapRel_allocs.pml4Entry (clonesEntry_pml4 hw) h (atPath_nil _)
    htwin hlimit
