import Joes.PagingRefinement
import Mathlib.Data.BitVec

/-!
# The rights a mapping grants

A walk does not only translate. On x86-64 a page may be written to if
`writable` is set in every entry of its walk, may be used by user code if
`user_level` is, and may not be executed if `disable_execution` is set in one
of them. So the flags a page is mapped with have to be granted by the three
entries above its own as well, and these were made by whichever mapping came
first, with `PAGING_FLAG_PRESENT | PAGING_FLAG_WRITABLE`.

That is an invariant of the tree, `PlainPointers`: every entry that names a
table is writable, not for user code and executable. It holds of an all-zero
PML4 and is kept by every mapping, and it settles what a walk grants: the right
to write and the ban on execution are those of the leaf, and nothing is granted
to user code. So `PAGING_FLAG_WRITABLE` always takes effect, and
`PAGING_FLAG_USER_LEVEL` never does (`mapRun_rights_iff`).
-/

open PageTableEntry RadixHeap

/-- `PAGING_FLAG_USER_LEVEL`. -/
def pagingFlagUserLevel : BitVec 64 := 4#64

/-- The flags contain a flag. -/
def ContainsFlag (flags flag : BitVec 64) : Prop := flags &&& flag = flag

instance (flags flag : BitVec 64) : Decidable (ContainsFlag flags flag) :=
  inferInstanceAs (Decidable (_ = _))

/-- A flag of one bit is contained if the bit is set. -/
theorem containsFlag_twoPow {flags : BitVec 64} {i : ℕ} (hi : i < 64) :
    ContainsFlag flags (BitVec.twoPow 64 i) ↔ flags.getLsbD i = true := by
  have hne : (0#64) ≠ BitVec.twoPow 64 i := by
    intro h
    have hbit := congrArg (fun x => BitVec.getLsbD x i) h
    simp [hi] at hbit
  rw [ContainsFlag, BitVec.and_twoPow]
  by_cases h : flags.getLsbD i = true
  · simp [h]
  · simp [h, hne]

namespace PageTableEntry

/-- The field `writable`, the same bit in every view of the union. -/
def writable (e : PageTableEntry) : Bool := e.getLsbD 1

/-- The field `user_level`, the same bit in every view of the union. -/
def userLevel (e : PageTableEntry) : Bool := e.getLsbD 2

/-- The field `disable_execution`, the same bit in every view of the union. -/
def disableExecution (e : PageTableEntry) : Bool := e.getLsbD 63

end PageTableEntry

/-! ## The rule of the walk -/

section Walk

variable (hhdm : BitVec 64) (mem : TablePtr → TableIndex → PageTableEntry)

/-- **The entries of a walk** along a path, starting in a table. -/
def walkEntries : TablePtr → List TableIndex → List PageTableEntry
  | _, [] => []
  | t, i :: p => mem t i :: walkEntries ((mem t i).tableAddress + hhdm) p

/-- A page may be written to if every entry of its walk says so. -/
def effectiveWritable (pml4 : TablePtr) (p : List TableIndex) : Bool :=
  (walkEntries hhdm mem pml4 p).all writable

/-- A page may be used by user code if every entry of its walk says so. -/
def effectiveUser (pml4 : TablePtr) (p : List TableIndex) : Bool :=
  (walkEntries hhdm mem pml4 p).all userLevel

/-- A page may not be executed if some entry of its walk says so. -/
def effectiveNoExecute (pml4 : TablePtr) (p : List TableIndex) : Bool :=
  (walkEntries hhdm mem pml4 p).any disableExecution

end Walk

variable {σ : Type} {A : PageAllocator σ} {hhdm : BitVec 64} {pml4 : TablePtr}
variable {s s' s₀ : Machine σ} {used : Set TablePtr} {limit : ℕ}

/-- A walk goes on from the table it has come to. -/
theorem walkEntries_append {p q : List TableIndex} {t : TablePtr}
    (ht : pageSlot hhdm s.mem pml4 p = .table t) :
    walkEntries hhdm s.mem pml4 (p ++ q)
      = walkEntries hhdm s.mem pml4 p ++ walkEntries hhdm s.mem t q := by
  induction p using List.reverseRecOn generalizing q t with
  | nil =>
    obtain rfl : pml4 = t := Slot.table.inj ht
    rfl
  | append_singleton p i ih =>
    obtain ⟨u, hu, -, -, -, ha⟩ := entry_of_pageSlot_table ht
    rw [List.append_assoc, ih hu, ih hu, List.append_assoc]
    show _ ++ (s.mem u i :: walkEntries hhdm s.mem ((s.mem u i).tableAddress + hhdm) q) = _
    rw [ha]
    rfl

/-- **The entries that name a table** satisfy a predicate. -/
def PointersSatisfy (hhdm : BitVec 64) (pml4 : TablePtr) (Q : PageTableEntry → Prop)
    (s : Machine σ) : Prop :=
  ∀ p t i c, pageSlot hhdm s.mem pml4 p = .table t →
    pageSlot hhdm s.mem pml4 (p ++ [i]) = .table c → Q (s.mem t i)

/-- Then all entries on the way to a table do. -/
theorem PointersSatisfy.walkEntries {Q : PageTableEntry → Prop}
    (h : PointersSatisfy hhdm pml4 Q s) {p : List TableIndex} {t : TablePtr}
    (ht : pageSlot hhdm s.mem pml4 p = .table t) : ∀ e ∈ walkEntries hhdm s.mem pml4 p, Q e := by
  induction p using List.reverseRecOn generalizing t with
  | nil => exact fun e he => absurd he List.not_mem_nil
  | append_singleton p i ih =>
    obtain ⟨u, hu, -⟩ := entry_of_pageSlot_table ht
    intro e he
    rw [walkEntries_append hu, List.mem_append] at he
    rcases he with he | he
    · exact ih hu e he
    · obtain rfl := List.mem_singleton.mp he
      exact h p u i t hu ht

/-- **Rewriting one entry**, with nothing below it, keeps a predicate on the
entries that name tables, if the new entry satisfies it or names none. -/
theorem PointersSatisfy.write {Q : PageTableEntry → Prop} (h : PointersSatisfy hhdm pml4 Q s)
    (htree : Unshared (entrySlot hhdm) s.mem pml4) {p : List TableIndex} {t : TablePtr}
    {i : TableIndex} {x : Slot TablePtr PageTableEntry}
    (ht : pageSlot hhdm s.mem pml4 p = .table t)
    (hslots : slotAt (entrySlot hhdm) s'.mem pml4
      = Function.update (slotAt (entrySlot hhdm) s.mem pml4) (p ++ [i]) x)
    (hsame : ∀ q u, pageSlot hhdm s.mem pml4 q = .table u → ∀ j, (u, j) ≠ (t, i) →
      s'.mem u j = s.mem u j)
    (hQ : ∀ c, x = .table c → Q (s'.mem t i))
    (hfresh : ∀ c, x = .table c → ∀ j d, entrySlot hhdm d (s'.mem c j) = .empty) :
    PointersSatisfy hhdm pml4 Q s' := by
  intro q u j c hu hc
  have hread := (slotAt_snoc_of_table hu j).symm.trans hc
  have hself : slotAt (entrySlot hhdm) s'.mem pml4 (p ++ [i]) = x := by
    rw [hslots, Function.update_self]
  by_cases hq : q = p ++ [i]
  · -- the table linked in holds nothing
    rw [hq] at hu
    cases (hfresh u (hself.symm.trans hu) j _).symm.trans hread
  · have hu₀ : pageSlot hhdm s.mem pml4 q = .table u := by
      rwa [pageSlot, hslots, Function.update_of_ne hq] at hu
    by_cases huj : (u, j) = (t, i)
    · obtain ⟨rfl, rfl⟩ := Prod.mk.inj huj
      obtain rfl : q = p := htree q p u hu₀ ht
      exact hQ c (hself.symm.trans hc)
    · rw [hsame q u hu₀ j huj]
      refine h q u j c hu₀ ?_
      have hqj : q ++ [j] ≠ p ++ [i] := by
        intro heq
        obtain ⟨rfl, hji⟩ := List.append_inj' heq rfl
        exact huj (Prod.ext (Slot.table.inj (hu₀.symm.trans ht)) (List.singleton_inj.mp hji))
      rwa [pageSlot, hslots, Function.update_of_ne hqj] at hc

/-! ## What the entries above a leaf grant -/

/-- The rights of an entry made with `PAGING_FLAG_PRESENT |
PAGING_FLAG_WRITABLE`. -/
def IsPlain (e : PageTableEntry) : Prop :=
  e.writable = true ∧ e.userLevel = false ∧ e.disableExecution = false

/-- **Every entry that names a table is plain.** -/
abbrev PlainPointers (hhdm : BitVec 64) (pml4 : TablePtr) (s : Machine σ) : Prop :=
  PointersSatisfy hhdm pml4 IsPlain s

/-- The entry a new table is linked in with is plain. -/
theorem isPlain_link (x : BitVec 64) {level : PageTableLevel} (hl : level ≠ .pt) :
    IsPlain (pagingCreateEntry x (pagingFlagPresent ||| pagingFlagWritable) level .pointer) := by
  have hfield : pagingCreateEntry x (pagingFlagPresent ||| pagingFlagWritable) level .pointer
      = BitField.write (pagingFlagPresent ||| pagingFlagWritable) 12 ((x >>> 12).setWidth 28) := by
    cases level <;> trivial
  refine ⟨?_, ?_, ?_⟩
  · rw [writable, getLsbD_pagingCreateEntry _ _ _ _ (by decide)]
    decide
  · rw [userLevel, getLsbD_pagingCreateEntry _ _ _ _ (by decide)]
    decide
  · rw [disableExecution, hfield, BitField.getLsbD_write _ _ _ _ (by decide), if_neg (by decide)]
    decide

/-- An all-zero PML4 has no entry that names a table. -/
theorem plainPointers_of_zero (hzero : ∀ i, s.mem pml4 i = 0#64) : PlainPointers hhdm pml4 s := by
  intro p t i c _ hc
  have hroot : ∀ i, entrySlot hhdm 0 (s.mem pml4 i) = .empty := entrySlot_of_zero hzero 0
  cases (slotAt_eq_empty_of_root hroot (by simp)).symm.trans hc

/-- **What a page is granted** under plain entries: what its own entry says of
writing and executing, and nothing to user code. -/
theorem PlainPointers.rights (h : PlainPointers hhdm pml4 s) {p : List TableIndex}
    {e : PageTableEntry} (he : pageSlot hhdm s.mem pml4 p = .leaf e) :
    effectiveWritable hhdm s.mem pml4 p = e.writable
      ∧ effectiveUser hhdm s.mem pml4 p = false
      ∧ effectiveNoExecute hhdm s.mem pml4 p = e.disableExecution := by
  obtain rfl | ⟨q, i, rfl⟩ := List.eq_nil_or_concat' p
  · cases he
  obtain ⟨t, ht, hd, -, -, -, rfl⟩ := entry_of_pageSlot_leaf he
  have hplain := h.walkEntries ht
  have hwalk : walkEntries hhdm s.mem pml4 (q ++ [i])
      = walkEntries hhdm s.mem pml4 q ++ [s.mem t i] := walkEntries_append ht
  -- there is an entry above the leaf, the one of the PML4
  obtain ⟨j, q, rfl⟩ := List.exists_cons_of_length_pos hd
  have hfirst := (hplain _ List.mem_cons_self).2.1
  refine ⟨?_, ?_, ?_⟩
  · have hall : (walkEntries hhdm s.mem pml4 (j :: q)).all writable = true :=
      List.all_eq_true.mpr fun e he => (hplain e he).1
    rw [effectiveWritable, hwalk, List.all_append, hall]
    simp
  · rw [effectiveUser, hwalk, List.all_append, walkEntries, List.all_cons, hfirst]
    rfl
  · have hany : (walkEntries hhdm s.mem pml4 (j :: q)).any disableExecution = false :=
      List.any_eq_false.mpr fun e he => by simp [(hplain e he).2.2]
    rw [effectiveNoExecute, hwalk, List.any_append, hany]
    simp

/-- **Mapping a page** at a free slot under no leaf keeps the entries that name
tables plain. -/
theorem plainPointers_pagingMapPage (hw : hhdm.toNat + 2 ^ 40 ≤ 2 ^ 64) {size : PageSize}
    {virt phys flags : BitVec 64} (h : MapState A hhdm pml4 limit used s)
    (hplain : PlainPointers hhdm pml4 s)
    (hlimit : (pagingMapPageWithoutTlbInvalidation A hhdm pml4 phys virt size flags s).2.allocs
      ≤ limit)
    (hf : LeafFlags size flags)
    (habove : ∀ q, q <+: tablePath size virt → (pageSlot hhdm s.mem pml4 q).leaf? = none)
    (hfree : pageSlot hhdm s.mem pml4 (pagePath size virt) = .empty) :
    PlainPointers hhdm pml4
      (pagingMapPageWithoutTlbInvalidation A hhdm pml4 phys virt size flags s).2 := by
  refine pagingMapPage_invariant hw (fun used p t i level s hs hlimit ht hd hl hemp hplain => ?_)
    (fun t s htree ht hemp hplain => ?_) h hplain hlimit habove hfree
  · obtain ⟨-, hframe, hnew, -⟩ := hs.next hlimit
    have hfresh : (A.pmmAlloc s.pmm).1 + hhdm ∉ pageTables hhdm s.mem pml4 := fun hmem =>
      hnew (hs.tables_used hmem)
    refine hplain.write hs.tree ht (slotAt_linkNext hs.tree hframe hfresh ht hd hl hemp)
      (fun q u hu j huj => ?_) (fun _ _ => ?_) fun c hc j d => ?_
    · exact mem_linkNext level (fun heq => hfresh (heq ▸ mem_tables hu)) huj
    · rw [linkNext, Machine.mem_storeEntry_self]
      exact isPlain_link _ hl
    · obtain rfl := Slot.table.inj hc
      rw [mem_linkNext_self level fun heq => hfresh (heq ▸ mem_tables ht)]
      exact entrySlot_of_not_present present_zero d
  · refine hplain.write htree ht (slotAt_storeLeaf phys htree ht hf hemp)
      (fun q u hu j huj => ?_) (fun c hc => ?_) fun c hc => ?_
    · exact Machine.mem_storeEntry_of_ne huj _ _
    · cases hc
    · cases hc

/-! ## Runs of mappings -/

/-- The arguments of a call of `paging_map_page` for a 4 kB page. -/
structure MapCall where
  phys : BitVec 64
  virt : BitVec 64
  flags : BitVec 64

/-- **A run of successful mappings** of 4 kB pages, with `PAGING_FLAG_PRESENT`
among the flags, and with pages from `pmm_alloc` that are not in use as
tables. -/
inductive MapRun (A : PageAllocator σ) (hhdm : BitVec 64) (pml4 : TablePtr) (s₀ : Machine σ) :
    Machine σ → List MapCall → Prop
  | start : MapRun A hhdm pml4 s₀ s₀ []
  | map {s : Machine σ} {calls : List MapCall} (c : MapCall) (h : MapRun A hhdm pml4 s₀ s calls)
      (hp : ContainsFlag c.flags pagingFlagPresent)
      (hok : (pagingMapPage A hhdm pml4 c.phys c.virt .kb4 c.flags s).1 = .ok)
      (hfresh : FreshBetween A hhdm (pageTables hhdm s.mem pml4) s
        (pagingMapPage A hhdm pml4 c.phys c.virt .kb4 c.flags s).2) :
      MapRun A hhdm pml4 s₀ (pagingMapPage A hhdm pml4 c.phys c.virt .kb4 c.flags s).2
        (calls ++ [c])

/-- **The requested rights take effect**: each page is granted to user code, or
for writing, exactly if it was mapped with the flag. -/
def RightsTakeEffect (hhdm : BitVec 64) (pml4 : TablePtr) (s : Machine σ) (calls : List MapCall) :
    Prop :=
  ∀ c ∈ calls,
    (effectiveUser hhdm s.mem pml4 (pagePath .kb4 c.virt) = true
      ↔ ContainsFlag c.flags pagingFlagUserLevel) ∧
    (effectiveWritable hhdm s.mem pml4 (pagePath .kb4 c.virt) = true
      ↔ ContainsFlag c.flags pagingFlagWritable)

/-- What a run of mappings keeps. -/
structure MapRunInv (hhdm : BitVec 64) (pml4 : TablePtr) (s : Machine σ) (calls : List MapCall) :
    Prop where
  tree : Unshared (entrySlot hhdm) s.mem pml4
  plain : PlainPointers hhdm pml4 s
  /-- All leaves are those of 4 kB pages. -/
  leaves : ∀ q e, pageSlot hhdm s.mem pml4 q = .leaf e → q.length = 4
  /-- The leaf of each call is in place. -/
  mapped : ∀ c ∈ calls, pageSlot hhdm s.mem pml4 (pagePath .kb4 c.virt)
    = .leaf (pagingCreateEntry c.phys c.flags .pt .page)

/-- The invariant holds of an all-zero PML4. -/
theorem MapRunInv.start (hzero : ∀ i, s.mem pml4 i = 0#64) : MapRunInv hhdm pml4 s [] := by
  have hroot : ∀ i, entrySlot hhdm 0 (s.mem pml4 i) = .empty := entrySlot_of_zero hzero 0
  refine ⟨unshared_of_root_empty hroot, plainPointers_of_zero hzero, fun q e he => ?_,
    fun c hc => absurd hc List.not_mem_nil⟩
  have hnone : (pageSlot hhdm s.mem pml4 q).leaf? = none := leaf?_eq_none_of_root hroot q
  rw [he] at hnone
  cases hnone

/-- **The step of a run**: a successful mapping found its slot free, and puts
its leaf there. -/
theorem MapRunInv.map (hw : hhdm.toNat + 2 ^ 40 ≤ 2 ^ 64) {calls : List MapCall}
    (h : MapRunInv hhdm pml4 s calls) {c : MapCall}
    (hp : ContainsFlag c.flags pagingFlagPresent)
    (hok : (pagingMapPage A hhdm pml4 c.phys c.virt .kb4 c.flags s).1 = .ok)
    (hfresh : FreshBetween A hhdm (pageTables hhdm s.mem pml4) s
      (pagingMapPage A hhdm pml4 c.phys c.virt .kb4 c.flags s).2) :
    MapRunInv hhdm pml4 (pagingMapPage A hhdm pml4 c.phys c.virt .kb4 c.flags s).2
      (calls ++ [c]) := by
  have hflags : LeafFlags .kb4 c.flags :=
    ⟨(containsFlag_twoPow (i := 0) (by decide)).mp hp, fun hne => absurd rfl hne⟩
  have hfree : pageSlot hhdm s.mem pml4 (pagePath .kb4 c.virt) = .empty := by
    by_contra hne
    rw [pagingMapPage, pagingMapPage_of_occupied _ _ hne] at hok
    cases hok
  have habove : ∀ q, q <+: tablePath .kb4 c.virt → (pageSlot hhdm s.mem pml4 q).leaf? = none := by
    intro q hq
    by_contra hne
    obtain ⟨e, he⟩ := Option.ne_none_iff_exists'.mp hne
    have hlen := h.leaves q e (Slot.leaf?_eq_some.mp he)
    have hle : q.length ≤ 3 := hq.length_le
    omega
  have hstate : MapState A hhdm pml4
      (pagingMapPage A hhdm pml4 c.phys c.virt .kb4 c.flags s).2.allocs
      (pageTables hhdm s.mem pml4) s := ⟨h.tree, subset_rfl, hfresh.pages⟩
  have hplain := plainPointers_pagingMapPage hw hstate h.plain le_rfl hflags habove hfree
  obtain ⟨used', s', hrun, hm⟩ := pagingMapPage_of_free hw hstate le_rfl hflags habove hfree
  rw [hrun] at hplain
  rw [pagingMapPage, hrun]
  refine ⟨hm.state.tree, hplain, fun q e he => ?_, fun c' hc' => ?_⟩
  · by_cases hq : q = pagePath .kb4 c.virt
    · rw [hq]
      rfl
    · rcases hm.slots q hq with hsame | ⟨-, -, t, ht⟩
      · exact h.leaves q e (hsame ▸ he)
      · cases ht.symm.trans he
  · rcases List.mem_append.mp hc' with hc' | hc'
    · have hold := h.mapped c' hc'
      have hpath : pagePath .kb4 c'.virt ≠ pagePath .kb4 c.virt := by
        intro heq
        rw [heq, hfree] at hold
        cases hold
      rcases hm.slots _ hpath with hsame | ⟨hemp, -⟩
      · rw [hsame, hold]
      · cases hemp.symm.trans hold
    · obtain rfl := List.mem_singleton.mp hc'
      exact hm.leaf

/-- The invariant holds after every run. -/
theorem MapRun.inv (hw : hhdm.toNat + 2 ^ 40 ≤ 2 ^ 64) (hzero : ∀ i, s₀.mem pml4 i = 0#64)
    {calls : List MapCall} (h : MapRun A hhdm pml4 s₀ s calls) : MapRunInv hhdm pml4 s calls := by
  induction h with
  | start => exact MapRunInv.start hzero
  | map c _ hp hok hfresh ih => exact ih.map hw hp hok hfresh

/-- **What the pages of a run are granted.** -/
theorem MapRunInv.rights {calls : List MapCall} (h : MapRunInv hhdm pml4 s calls) {c : MapCall}
    (hc : c ∈ calls) :
    effectiveUser hhdm s.mem pml4 (pagePath .kb4 c.virt) = false ∧
      (effectiveWritable hhdm s.mem pml4 (pagePath .kb4 c.virt) = true
        ↔ ContainsFlag c.flags pagingFlagWritable) := by
  obtain ⟨hwrite, huser, -⟩ := h.plain.rights (h.mapped c hc)
  refine ⟨huser, ?_⟩
  rw [hwrite, writable, getLsbD_pagingCreateEntry _ _ _ _ (by decide)]
  exact (containsFlag_twoPow (by decide)).symm

/-- **When the requested rights take effect**: after a run from an all-zero
PML4, exactly if no page was mapped with `PAGING_FLAG_USER_LEVEL`. -/
theorem mapRun_rights_iff (hw : hhdm.toNat + 2 ^ 40 ≤ 2 ^ 64)
    (hzero : ∀ i, s₀.mem pml4 i = 0#64) {calls : List MapCall}
    (h : MapRun A hhdm pml4 s₀ s calls) :
    RightsTakeEffect hhdm pml4 s calls
      ↔ ∀ c ∈ calls, ¬ ContainsFlag c.flags pagingFlagUserLevel := by
  have hinv := h.inv hw hzero
  constructor
  · intro heffect c hc hflag
    have huser := (heffect c hc).1.mpr hflag
    rw [(hinv.rights hc).1] at huser
    cases huser
  · intro hno c hc
    obtain ⟨huser, hwrite⟩ := hinv.rights hc
    refine ⟨⟨fun h => ?_, fun h => absurd h (hno c hc)⟩, hwrite⟩
    rw [huser] at h
    cases h

/-- A run of one mapping on the empty machine. -/
theorem mapRun_zeroMachine {c : MapCall} (hp : ContainsFlag c.flags pagingFlagPresent)
    (hok : (pagingMapPage bumpAllocator higherHalf higherHalf c.phys c.virt .kb4 c.flags
      zeroMachine).1 = .ok) :
    MapRun bumpAllocator higherHalf higherHalf zeroMachine
      (pagingMapPage bumpAllocator higherHalf higherHalf c.phys c.virt .kb4 c.flags zeroMachine).2
      [c] := by
  have hroot : pageTables higherHalf zeroMachine.mem higherHalf = {higherHalf} :=
    tables_eq_root_of_empty fun _ => entrySlot_of_not_present present_zero _
  have hfresh : FreshPages bumpAllocator higherHalf 3 {higherHalf} zeroMachine.pmm := by
    simp only [FreshPages, Set.mem_insert_iff, Set.mem_singleton_iff]
    decide
  refine .map c .start hp hok ?_
  rw [hroot]
  exact ⟨hfresh.mono (Nat.sub_le_iff_le_add'.mpr (allocs_pagingMapPage _ _ _ _ _).2)⟩

/-- The run that maps a page for the kernel to write to. -/
theorem mapRun_rights_iff_kernel :
    RightsTakeEffect higherHalf higherHalf
      (pagingMapPage bumpAllocator higherHalf higherHalf 0x5000#64 0x1000#64 .kb4 0x3#64
        zeroMachine).2 [⟨0x5000#64, 0x1000#64, 0x3#64⟩] := by
  refine (mapRun_rights_iff (by decide) (fun _ => rfl)
    (mapRun_zeroMachine (by decide) (by decide))).mpr fun c hc => ?_
  obtain rfl := List.mem_singleton.mp hc
  decide

/-- **A right that is not granted**: a page mapped for user code in an empty
page table. -/
theorem mapRun_rights_user :
    ¬ ∀ s calls, MapRun bumpAllocator higherHalf higherHalf zeroMachine s calls →
      RightsTakeEffect higherHalf higherHalf s calls := by
  intro h
  have hrun := h _ _ (@mapRun_zeroMachine ⟨0x5000#64, 0x1000#64, 0x7#64⟩ (by decide) (by decide))
  have huser := (hrun _ List.mem_cons_self).1.mpr (by decide)
  revert huser
  decide
