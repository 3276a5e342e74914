import Joes.PagingCloneCopy
import Joes.PagingRights
import Joes.CallRun

/-!
# The rights of a clone

The clone has the leaf words of the old table, but the tables above them are
made anew by the mappings, with plain entries. So a page is granted in the
clone what its leaf says about writing and executing, and nothing to user code,
whatever the entries above the leaf said in the old table
(`pagingClonePageTable_rights`); the rights are preserved exactly where that is
what the old walk grants (`pagingClonePageTable_rights_iff`).

The invariant is the one of a run of mappings, `PlainPointers`. To have it for
a clone, the clone is taken apart into such a run (`clonePml4_run`): its loops
do nothing to the machine but map leaves of the old tree, one after the other.
-/

open PageTableEntry RadixHeap

variable {σ : Type} {A : PageAllocator σ} {hhdm : BitVec 64} {old new : TablePtr}
variable {s₀ s s' : Machine σ} {limit : ℕ}

/-- A leaf to be copied: the page it maps, and its word. -/
structure LeafCopy where
  size : PageSize
  virt : BitVec 64
  entry : PageTableEntry

/-- The mapping a leaf is copied by. -/
def copyLeaf (A : PageAllocator σ) (hhdm : BitVec 64) (new : TablePtr) (s : Machine σ)
    (c : LeafCopy) : Option (Machine σ) :=
  some (pagingMapPageWithoutTlbInvalidation A hhdm new (c.entry.pageBase c.size) c.virt c.size
    (pagingGetFlagsFromEntry c.entry c.size.level .page) s).2

/-- The leaf is one of the old tree, and the limit of calls of `pmm_alloc` is
kept. -/
def CopiesOldLeaf (A : PageAllocator σ) (hhdm : BitVec 64) (old new : TablePtr)
    (s₀ : Machine σ) (limit : ℕ) (s : Machine σ) (c : LeafCopy) : Prop :=
  pageSlot hhdm s₀.mem old (pagePath c.size c.virt) = .leaf c.entry ∧
    ∀ s', copyLeaf A hhdm new s c = some s' → s'.allocs ≤ limit

/-- **A run of copies** of leaves of the old tree. -/
abbrev CopyRun (A : PageAllocator σ) (hhdm : BitVec 64) (old new : TablePtr) (s₀ : Machine σ)
    (limit : ℕ) : Machine σ → Machine σ → Prop :=
  Reaches (copyLeaf A hhdm new) (CopiesOldLeaf A hhdm old new s₀ limit)

/-! ## The clone as a run -/

/-- **The leaf case** is one copy. -/
theorem cloneLeaf_run (cs : CloneState σ) {size : PageSize} {virt : BitVec 64}
    {e : PageTableEntry} (hO : pageSlot hhdm s₀.mem old (pagePath size virt) = .leaf e)
    (hlimit : (cloneLeaf A hhdm new size e virt cs).machine.allocs ≤ limit) :
    CopyRun A hhdm old new s₀ limit cs.machine (cloneLeaf A hhdm new size e virt cs).machine := by
  refine Relation.ReflTransGen.single ⟨⟨size, virt, e⟩, ⟨hO, fun s' hs' => ?_⟩, rfl⟩
  obtain rfl := Option.some.inj hs'
  exact hlimit

/-- What a loop over the table `t` at the path `p` does with an entry is a run
of copies. -/
def RunsEntry (A : PageAllocator σ) (hhdm : BitVec 64) (old new : TablePtr) (s₀ : Machine σ)
    (limit : ℕ) (p : List TableIndex) (t : TablePtr)
    (body : TableIndex → CloneState σ → CloneState σ) : Prop :=
  ∀ i (cs : CloneState σ), CopyState A hhdm old new s₀ limit cs.machine → AtPath p cs →
    (s₀.mem t i).present = true → (body i cs).machine.allocs ≤ limit →
    CopyRun A hhdm old new s₀ limit cs.machine (body i cs).machine

variable {p : List TableIndex} {t : TablePtr}

/-- **The loop rule**: the runs of the entries, one after the other. -/
theorem forPresentEntries_run {cs : CloneState σ} {body : TableIndex → CloneState σ → CloneState σ}
    (hO : pageSlot hhdm s₀.mem old p = .table t)
    (hallocs : ∀ i, Keeps (fun s s' => s.allocs ≤ s'.allocs) (body i))
    (hbody : ClonesEntry A hhdm old new s₀ limit p t body)
    (hrun : RunsEntry A hhdm old new s₀ limit p t body)
    (h : CopyState A hhdm old new s₀ limit cs.machine) (hat : AtPath p cs)
    (hlimit : (forPresentEntries t body cs).machine.allocs ≤ limit) :
    CopyRun A hhdm old new s₀ limit cs.machine (forPresentEntries t body cs).machine := by
  have hmono : MapRel A hhdm new fun s s' => s.allocs ≤ s'.allocs := mapRel_allocs
  unfold forPresentEntries at hlimit ⊢
  generalize tableIndices = is at hlimit ⊢
  induction is generalizing cs with
  | nil => exact Relation.ReflTransGen.refl
  | cons i is ih =>
    rw [List.foldl_cons] at hlimit ⊢
    have hsame : cs.machine.mem t i = s₀.mem t i := by
      obtain ⟨used, hinv⟩ := h
      rw [hinv.old_same t (mem_tables hO)]
    rw [hsame] at hlimit ⊢
    by_cases hp : (s₀.mem t i).present = true
    · rw [if_pos hp] at hlimit ⊢
      have hfirst := le_trans (hmono.foldl hallocs is (body i cs)) hlimit
      obtain ⟨hstep, hat'⟩ := hbody i cs cs h hat (CloneTwin.refl cs) hp hfirst
      exact (hrun i cs h hat hp hfirst).trans (ih hstep.state hat' hlimit)
    · rw [if_neg hp] at hlimit ⊢
      exact ih h hat hlimit

/-- The word of an old entry that is present. -/
theorem CopyState.old_entry {i : TableIndex} (h : CopyState A hhdm old new s₀ limit s)
    (hO : pageSlot hhdm s₀.mem old p = .table t) : s.mem t i = s₀.mem t i := by
  obtain ⟨used, hinv⟩ := h
  rw [hinv.old_same t (mem_tables hO)]

/-- What an old entry reads as. -/
theorem old_slot (hO : pageSlot hhdm s₀.mem old p = .table t) (i : TableIndex) :
    pageSlot hhdm s₀.mem old (p ++ [i]) = entrySlot hhdm p.length (s₀.mem t i) :=
  slotAt_snoc_of_table hO i

/-- **Level `PT`.** -/
theorem runsEntry_pt (hlen : p.length = 3) (hO : pageSlot hhdm s₀.mem old p = .table t) :
    RunsEntry A hhdm old new s₀ limit p t (clonePtEntry A hhdm new t) := by
  intro i cs h hat hp hlimit
  rw [AtPath, hlen] at hat
  have hpath : pagePath .kb4 (pagingGetVirtAddressFromIndices cs.pml4Idx cs.pdprIdx cs.pdIdx i)
      = p ++ [i] := by
    rw [pagePath_assembled, ← hat]
    rfl
  have hread := old_slot hO i
  unfold clonePtEntry at hlimit ⊢
  simp only [h.old_entry hO] at hlimit ⊢
  refine cloneLeaf_run { cs with ptIdx := i } ?_ hlimit
  rw [hpath, hread, hlen]
  simp [entrySlot, hp]

theorem clonePt_run (cs : CloneState σ) (hw : hhdm.toNat + 2 ^ 40 ≤ 2 ^ 64)
    (hat : AtPath p cs) (hlen : p.length = 3)
    (hO : pageSlot hhdm s₀.mem old p = .table t)
    (h : CopyState A hhdm old new s₀ limit cs.machine)
    (hlimit : (clonePt A hhdm new t cs).machine.allocs ≤ limit) :
    CopyRun A hhdm old new s₀ limit cs.machine (clonePt A hhdm new t cs).machine :=
  forPresentEntries_run hO (mapRel_allocs.ptEntry t) (clonesEntry_pt hw hlen hO)
    (runsEntry_pt hlen hO) h hat hlimit

/-- **Level `PD`.** -/
theorem runsEntry_pd (hw : hhdm.toNat + 2 ^ 40 ≤ 2 ^ 64) (hlen : p.length = 2)
    (hO : pageSlot hhdm s₀.mem old p = .table t) :
    RunsEntry A hhdm old new s₀ limit p t (clonePdEntry A hhdm new t) := by
  intro i cs h hat hp hlimit
  rw [AtPath, hlen] at hat
  have hread := old_slot hO i
  rw [hlen] at hread
  unfold clonePdEntry at hlimit ⊢
  simp only [h.old_entry hO] at hlimit ⊢
  by_cases hs : (s₀.mem t i).pageSize = true
  · have hpath : pagePath .mb2 (pagingGetVirtAddressFromIndices cs.pml4Idx cs.pdprIdx i 0)
        = p ++ [i] := by
      rw [pagePath_assembled, ← hat]
      rfl
    simp only [if_pos hs] at hlimit ⊢
    refine cloneLeaf_run { cs with pdIdx := i } ?_ hlimit
    rw [hpath, hread]
    simp [entrySlot, hp, hs]
  · simp only [if_neg hs] at hlimit ⊢
    have hat' : AtPath (p ++ [i]) { cs with pdIdx := i } := by
      rw [AtPath, List.length_append, hlen, ← hat]
      rfl
    exact clonePt_run { cs with pdIdx := i } hw hat' (by rw [List.length_append, hlen]; rfl)
      (by simp [hread, entrySlot, hp, hs]) h hlimit

theorem clonePd_run (cs : CloneState σ) (hw : hhdm.toNat + 2 ^ 40 ≤ 2 ^ 64)
    (hat : AtPath p cs) (hlen : p.length = 2)
    (hO : pageSlot hhdm s₀.mem old p = .table t)
    (h : CopyState A hhdm old new s₀ limit cs.machine)
    (hlimit : (clonePd A hhdm new t cs).machine.allocs ≤ limit) :
    CopyRun A hhdm old new s₀ limit cs.machine (clonePd A hhdm new t cs).machine :=
  forPresentEntries_run hO (mapRel_allocs.pdEntry t) (clonesEntry_pd hw hlen hO)
    (runsEntry_pd hw hlen hO) h hat hlimit

/-- **Level `PDPR`.** -/
theorem runsEntry_pdpr (hw : hhdm.toNat + 2 ^ 40 ≤ 2 ^ 64) (hlen : p.length = 1)
    (hO : pageSlot hhdm s₀.mem old p = .table t) :
    RunsEntry A hhdm old new s₀ limit p t (clonePdprEntry A hhdm new t) := by
  intro i cs h hat hp hlimit
  rw [AtPath, hlen] at hat
  have hread := old_slot hO i
  rw [hlen] at hread
  unfold clonePdprEntry at hlimit ⊢
  simp only [h.old_entry hO] at hlimit ⊢
  by_cases hs : (s₀.mem t i).pageSize = true
  · have hpath : pagePath .gb1 (pagingGetVirtAddressFromIndices cs.pml4Idx i 0 0) = p ++ [i] := by
      rw [pagePath_assembled, ← hat]
      rfl
    simp only [if_pos hs] at hlimit ⊢
    refine cloneLeaf_run { cs with pdprIdx := i } ?_ hlimit
    rw [hpath, hread]
    simp [entrySlot, hp, hs]
  · simp only [if_neg hs] at hlimit ⊢
    have hat' : AtPath (p ++ [i]) { cs with pdprIdx := i } := by
      rw [AtPath, List.length_append, hlen, ← hat]
      rfl
    exact clonePd_run { cs with pdprIdx := i } hw hat' (by rw [List.length_append, hlen]; rfl)
      (by simp [hread, entrySlot, hp, hs]) h hlimit

theorem clonePdpr_run (cs : CloneState σ) (hw : hhdm.toNat + 2 ^ 40 ≤ 2 ^ 64)
    (hat : AtPath p cs) (hlen : p.length = 1)
    (hO : pageSlot hhdm s₀.mem old p = .table t)
    (h : CopyState A hhdm old new s₀ limit cs.machine)
    (hlimit : (clonePdpr A hhdm new t cs).machine.allocs ≤ limit) :
    CopyRun A hhdm old new s₀ limit cs.machine (clonePdpr A hhdm new t cs).machine :=
  forPresentEntries_run hO (mapRel_allocs.pdprEntry t) (clonesEntry_pdpr hw hlen hO)
    (runsEntry_pdpr hw hlen hO) h hat hlimit

/-- **Level `PML4`.** -/
theorem runsEntry_pml4 (hw : hhdm.toNat + 2 ^ 40 ≤ 2 ^ 64) :
    RunsEntry A hhdm old new s₀ limit [] old (clonePml4Entry A hhdm new old) := by
  intro i cs h hat hp hlimit
  have hroot : pageSlot hhdm s₀.mem old [] = .table old := rfl
  have hread := old_slot hroot i
  unfold clonePml4Entry at hlimit ⊢
  simp only [h.old_entry hroot] at hlimit ⊢
  exact clonePdpr_run { cs with pml4Idx := i } hw (p := [i]) rfl rfl
    (hread.trans (by simp [entrySlot, hp])) h hlimit

/-- **A clone is a run of copies** of leaves of the old tree. -/
theorem clonePml4_run (cs : CloneState σ) (hw : hhdm.toNat + 2 ^ 40 ≤ 2 ^ 64)
    (h : CopyState A hhdm old new s₀ limit cs.machine)
    (hlimit : (clonePml4 A hhdm new old cs).machine.allocs ≤ limit) :
    CopyRun A hhdm old new s₀ limit cs.machine (clonePml4 A hhdm new old cs).machine :=
  forPresentEntries_run (by rfl) mapRel_allocs.pml4Entry (clonesEntry_pml4 hw)
    (runsEntry_pml4 hw) h (atPath_nil _) hlimit

/-! ## What the clone grants -/

/-- **The step of the run**: a copy keeps the invariant of the clone, and the
entries that name tables plain. -/
theorem copyLeaf_invariant (hw : hhdm.toNat + 2 ^ 40 ≤ 2 ^ 64) {c : LeafCopy}
    (hc : CopiesOldLeaf A hhdm old new s₀ limit s c) (hcopy : copyLeaf A hhdm new s c = some s')
    (h : CopyState A hhdm old new s₀ limit s) (hplain : PlainPointers hhdm new s) :
    CopyState A hhdm old new s₀ limit s' ∧ PlainPointers hhdm new s' := by
  obtain ⟨hO, hlimit⟩ := hc
  replace hlimit := hlimit s' hcopy
  obtain rfl := Option.some.inj hcopy
  refine ⟨(cloneLeaf_copy hw (CloneTwin.refl ⟨s, 0, 0, 0, 0⟩) h hlimit hO).state, ?_⟩
  obtain ⟨used, hinv⟩ := h
  by_cases hfree : pageSlot hhdm s.mem new (pagePath c.size c.virt) = .empty
  · exact plainPointers_pagingMapPage hw hinv.state hplain hlimit (leafFlags_of_pageSlot hO)
      (fun q hq => hinv.clear_above hO hq) hfree
  · rw [pagingMapPage_of_occupied _ _ hfree]
    exact hplain

/-- **What a page is granted in the clone**, into an all-zero PML4: what its leaf
says of writing and executing, and nothing to user code. -/
theorem pagingClonePageTable_rights (hw : hhdm.toNat + 2 ^ 40 ≤ 2 ^ 64) {cs : CloneState σ}
    (hnew : new ≠ 0#64) (hzero : ∀ i, cs.machine.mem new i = 0#64)
    (hapart : new ∉ pageTables hhdm cs.machine.mem old)
    (hfresh : FreshBetween A hhdm (insert new (pageTables hhdm cs.machine.mem old)) cs.machine
      (pagingClonePageTable A hhdm old new .pml4 cs).2.2.machine)
    {q : List TableIndex} {e : PageTableEntry}
    (he : pageSlot hhdm cs.machine.mem old q = .leaf e) :
    let result := (pagingClonePageTable A hhdm old new .pml4 cs).2.2.machine
    effectiveWritable hhdm result.mem new q = e.writable
      ∧ effectiveUser hhdm result.mem new q = false
      ∧ effectiveNoExecute hhdm result.mem new q = e.disableExecution := by
  have hleaf := (pagingClonePageTable_copies hw hnew hzero hapart hfresh).2.1 q e
  have hcode : pagingClonePageTable A hhdm old new .pml4 cs
      = (.ok, new, clonePml4 A hhdm new old cs) := by
    rw [pagingClonePageTable, if_neg hnew]
  rw [hcode] at hfresh hleaf ⊢
  dsimp only at hfresh hleaf ⊢
  have hstart : CopyState A hhdm old new cs.machine
      (clonePml4 A hhdm new old cs).machine.allocs cs.machine :=
    copyState_start_of_empty (entrySlot_of_zero hzero 0) hapart hfresh.pages
  have hend := (clonePml4_run cs hw hstart le_rfl).invariant
    (P := fun s => CopyState A hhdm old new cs.machine
      (clonePml4 A hhdm new old cs).machine.allocs s ∧ PlainPointers hhdm new s)
    ⟨hstart, plainPointers_of_zero hzero⟩
    fun s c s' hs hc hcopy => copyLeaf_invariant hw hc hcopy hs.1 hs.2
  exact hend.2.rights (hleaf.mpr he)

/-- **The rights are preserved**: each page mapped in the old table is granted
the same in the new one. -/
def RightsPreserved (hhdm : BitVec 64) (old new : TablePtr) (s s' : Machine σ) : Prop :=
  ∀ q e, pageSlot hhdm s.mem old q = .leaf e →
    effectiveWritable hhdm s'.mem new q = effectiveWritable hhdm s.mem old q
      ∧ effectiveUser hhdm s'.mem new q = effectiveUser hhdm s.mem old q
      ∧ effectiveNoExecute hhdm s'.mem new q = effectiveNoExecute hhdm s.mem old q

/-- **The leaf alone decides**: the entries above a leaf take no right to write
or execute away from it, and the page is not for user code. -/
def LeafDecides (entries : List PageTableEntry) (leaf : PageTableEntry) : Prop :=
  (leaf.writable = true → ∀ e ∈ entries, e.writable = true)
    ∧ (∃ e ∈ entries, e.userLevel = false)
    ∧ (leaf.disableExecution = false → ∀ e ∈ entries, e.disableExecution = false)

/-- The leaf decides exactly if a walk grants what the leaf says, and nothing to
user code. -/
theorem leafDecides_iff {q : List TableIndex} {e : PageTableEntry}
    (he : pageSlot hhdm s.mem old q = .leaf e) :
    LeafDecides (walkEntries hhdm s.mem old q) e
      ↔ effectiveWritable hhdm s.mem old q = e.writable
        ∧ effectiveUser hhdm s.mem old q = false
        ∧ effectiveNoExecute hhdm s.mem old q = e.disableExecution := by
  have hmem : e ∈ walkEntries hhdm s.mem old q := by
    obtain rfl | ⟨r, i, rfl⟩ := List.eq_nil_or_concat' q
    · cases he
    · obtain ⟨t, ht, -, -, -, -, rfl⟩ := entry_of_pageSlot_leaf he
      rw [walkEntries_append ht]
      exact List.mem_append_right _ List.mem_cons_self
  refine and_congr ?_ (and_congr ?_ ?_)
  · rw [effectiveWritable, ← List.all_eq_true]
    constructor
    · intro h
      by_cases hw : e.writable = true
      · rw [hw, h hw]
      · have hall : (walkEntries hhdm s.mem old q).all writable = false :=
          List.all_eq_false.mpr ⟨e, hmem, hw⟩
        rw [hall, Bool.eq_false_iff.mpr hw]
    · intro h hw
      rw [h, hw]
  · rw [effectiveUser, List.all_eq_false]
    simp only [Bool.not_eq_true]
  · rw [effectiveNoExecute]
    constructor
    · intro h
      by_cases hx : e.disableExecution = true
      · rw [hx, List.any_eq_true]
        exact ⟨e, hmem, hx⟩
      · have hx' : e.disableExecution = false := Bool.eq_false_iff.mpr hx
        rw [hx', List.any_eq_false]
        exact fun x hxm => by rw [h hx' x hxm]; simp
    · intro h hx x hxm
      rw [hx, List.any_eq_false] at h
      exact Bool.eq_false_iff.mpr (h x hxm)

/-- **When cloning preserves the rights**: into an all-zero PML4, exactly if in
the old table the leaf alone decides about every page. -/
theorem pagingClonePageTable_rights_iff (hw : hhdm.toNat + 2 ^ 40 ≤ 2 ^ 64)
    {cs : CloneState σ} (hnew : new ≠ 0#64) (hzero : ∀ i, cs.machine.mem new i = 0#64)
    (hapart : new ∉ pageTables hhdm cs.machine.mem old)
    (hfresh : FreshBetween A hhdm (insert new (pageTables hhdm cs.machine.mem old)) cs.machine
      (pagingClonePageTable A hhdm old new .pml4 cs).2.2.machine) :
    RightsPreserved hhdm old new cs.machine
        (pagingClonePageTable A hhdm old new .pml4 cs).2.2.machine
      ↔ ∀ q e, pageSlot hhdm cs.machine.mem old q = .leaf e →
          LeafDecides (walkEntries hhdm cs.machine.mem old q) e := by
  refine forall_congr' fun q => forall_congr' fun e => forall_congr' fun he => ?_
  obtain ⟨hwrite, huser, hexec⟩ := pagingClonePageTable_rights hw hnew hzero hapart hfresh he
  rw [leafDecides_iff he, hwrite, huser, hexec]
  refine and_congr eq_comm (and_congr eq_comm eq_comm)

/-- The clone of a page table of the kernel: its one page keeps its rights. -/
theorem pagingClonePageTable_rights_iff_kernel :
    RightsPreserved higherHalf (higherHalf + 0x1000#64) (higherHalf + 0x8000#64)
      twoTablesMachine.machine
      (pagingClonePageTable bumpAllocator higherHalf (higherHalf + 0x1000#64)
        (higherHalf + 0x8000#64) .pml4 twoTablesMachine).2.2.machine := by
  obtain ⟨hzero, hapart⟩ := cloneTarget_twoTablesMachine
  refine (@pagingClonePageTable_rights_iff ℕ bumpAllocator higherHalf (higherHalf + 0x1000#64)
    (higherHalf + 0x8000#64) (by decide) twoTablesMachine (by decide) hzero hapart
    freshBetween_twoTablesMachine).mpr fun q e he => ?_
  rcases onlyFirst_twoTablesMachine.slot_ne_empty rfl leaf_twoTablesMachine
    (p := q) (by rw [he]; simp) with rfl | rfl | rfl
  · cases he
  · cases he
  · obtain rfl := Slot.leaf.inj (leaf_twoTablesMachine.symm.trans he)
    have hwalk : walkEntries higherHalf twoTablesMachine.machine.mem (higherHalf + 0x1000#64)
        [0, 0] = [0x2003#64, 0x40000083#64] := by decide
    rw [hwalk]
    refine ⟨fun _ => ?_, ⟨0x2003#64, List.mem_cons_self, by decide⟩, fun _ => ?_⟩
    · exact List.forall_mem_cons.mpr ⟨by decide, List.forall_mem_singleton.mpr (by decide)⟩
    · exact List.forall_mem_cons.mpr ⟨by decide, List.forall_mem_singleton.mpr (by decide)⟩

/-- A machine with a page table, at `0x1000`, that maps the first gigabyte to
the second for user code. -/
def userTableMachine : CloneState ℕ where
  machine :=
    { mem t i :=
        if i = 0 then
          if t = higherHalf + 0x1000#64 then 0x2007#64
          else if t = higherHalf + 0x2000#64 then 0x40000087#64
          else 0#64
        else 0#64
      pmm := 5
      trace := [] }
  pml4Idx := 0
  pdprIdx := 0
  pdIdx := 0
  ptIdx := 0

set_option maxRecDepth 4000 in
/-- Cloning it takes one page. -/
theorem allocs_userTableMachine :
    (pagingClonePageTable bumpAllocator higherHalf (higherHalf + 0x1000#64)
        (higherHalf + 0x8000#64) .pml4 userTableMachine).2.2.machine.allocs
      - userTableMachine.machine.allocs = 1 := by decide +kernel

/-- **A clone that loses a right**: that of a page mapped for user code. -/
theorem pagingClonePageTable_rights_user :
    ¬ RightsPreserved higherHalf (higherHalf + 0x1000#64) (higherHalf + 0x8000#64)
      userTableMachine.machine
      (pagingClonePageTable bumpAllocator higherHalf (higherHalf + 0x1000#64)
        (higherHalf + 0x8000#64) .pml4 userTableMachine).2.2.machine := by
  have hfirst : OnlyFirst userTableMachine.machine := by
    intro t i hi
    simp only [userTableMachine, if_neg hi]
    exact present_zero
  have hleaf : pageSlot higherHalf userTableMachine.machine.mem (higherHalf + 0x1000#64) [0, 0]
      = .leaf 0x40000087#64 := by rfl
  have htables : pageTables higherHalf userTableMachine.machine.mem (higherHalf + 0x1000#64)
      = {higherHalf + 0x1000#64, higherHalf + 0x2000#64} := hfirst.pageTables_eq rfl hleaf
  have hzero : ∀ i, userTableMachine.machine.mem (higherHalf + 0x8000#64) i = 0#64 := by
    intro i
    by_cases hi : i = 0 <;> simp [userTableMachine, hi]
  have hfresh : FreshBetween bumpAllocator higherHalf
      (insert (higherHalf + 0x8000#64)
        (pageTables higherHalf userTableMachine.machine.mem (higherHalf + 0x1000#64)))
      userTableMachine.machine
      (pagingClonePageTable bumpAllocator higherHalf (higherHalf + 0x1000#64)
        (higherHalf + 0x8000#64) .pml4 userTableMachine).2.2.machine := by
    refine ⟨?_⟩
    rw [allocs_userTableMachine, htables]
    simp only [FreshPages, Set.mem_insert_iff, Set.mem_singleton_iff]
    decide
  have hrights := @pagingClonePageTable_rights ℕ bumpAllocator higherHalf
    (higherHalf + 0x1000#64) (higherHalf + 0x8000#64) (by decide) userTableMachine (by decide)
    hzero (by rw [htables]; simp) hfresh [0, 0] _ hleaf
  intro hsame
  have huser := (hsame [0, 0] _ hleaf).2.1.symm.trans hrights.2.1
  revert huser
  decide
