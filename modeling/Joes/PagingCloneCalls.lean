import Joes.CallChain
import Joes.PagingCloneCopy

/-!
# The calls of a clone

`paging_clone_page_table` does one thing to the machine: it calls
`paging_map_page_without_tlb_invalidation` for leaves. So a clone is the list of these calls,
each in the state that the one before it left (`Makes`), and what it does follows from what they
do. The list is computed along with the loops (`cloneCalls`), with the state of each call in it.

Which calls there are is said in three ways, each an induction over the four levels with a loop
rule of its own. Every leaf that the old page table had at the start is visited, as long as the
calls keep what is present in the old tables (`Visits`). Nothing else is asked, so this holds for
targets that share tables with the old page table, and for a page table that is cloned into
itself. No path is visited twice, in whatever state the machine is, since the path of a call is
read off the index variables (`Spread`). And as long as the old tables do not change at all, the
calls are for leaves of the old page table only (`Copying`).
-/

open PageTableEntry RadixHeap

variable {σ : Type} {A : PageAllocator σ} {hhdm : BitVec 64} {old new : TablePtr}
variable {s₀ s s' s'' : Machine σ}

/-! ## The calls of a clone -/

/-- **A call for a leaf**: the state it is made in, the page size and the address it maps, and
the entry it copies. -/
structure LeafCall (σ : Type) where
  machine : Machine σ
  size : PageSize
  virt : BitVec 64
  entry : PageTableEntry

/-- The path of the leaf. -/
def LeafCall.path (c : LeafCall σ) : List TableIndex := pagePath c.size c.virt

/-- The state the call leaves. -/
def LeafCall.after (A : PageAllocator σ) (hhdm : BitVec 64) (new : TablePtr) (c : LeafCall σ) :
    Machine σ :=
  (pagingMapPageWithoutTlbInvalidation A hhdm new (c.entry.pageBase c.size) c.virt c.size
    (pagingGetFlagsFromEntry c.entry c.size.level .page) c.machine).2

/-- The calls of a loop over some entries of a table, given those of its body. -/
def entryCalls (t : TablePtr) (body : TableIndex → CloneState σ → CloneState σ)
    (calls : TableIndex → CloneState σ → List (LeafCall σ)) :
    List TableIndex → CloneState σ → List (LeafCall σ)
  | [], _ => []
  | i :: is, cs =>
    if (cs.machine.mem t i).present = true then
      calls i cs ++ entryCalls t body calls is (body i cs)
    else entryCalls t body calls is cs

/-- The calls for an entry at level `PT`. -/
def ptCalls (pt : TablePtr) (i : TableIndex) (cs : CloneState σ) : List (LeafCall σ) :=
  [⟨cs.machine, .kb4, pagingGetVirtAddressFromIndices cs.pml4Idx cs.pdprIdx cs.pdIdx i,
    cs.machine.mem pt i⟩]

/-- The calls for an entry at level `PD`. -/
def pdCalls (A : PageAllocator σ) (hhdm : BitVec 64) (new pd : TablePtr) (i : TableIndex)
    (cs : CloneState σ) : List (LeafCall σ) :=
  let entry := cs.machine.mem pd i
  if entry.pageSize = true then
    [⟨cs.machine, .mb2, pagingGetVirtAddressFromIndices cs.pml4Idx cs.pdprIdx i 0, entry⟩]
  else
    let pt := entry.tableAddress + hhdm
    entryCalls pt (clonePtEntry A hhdm new pt) (ptCalls pt) tableIndices { cs with pdIdx := i }

/-- The calls for an entry at level `PDPR`. -/
def pdprCalls (A : PageAllocator σ) (hhdm : BitVec 64) (new pdpr : TablePtr) (i : TableIndex)
    (cs : CloneState σ) : List (LeafCall σ) :=
  let entry := cs.machine.mem pdpr i
  if entry.pageSize = true then
    [⟨cs.machine, .gb1, pagingGetVirtAddressFromIndices cs.pml4Idx i 0 0, entry⟩]
  else
    let pd := entry.tableAddress + hhdm
    entryCalls pd (clonePdEntry A hhdm new pd) (pdCalls A hhdm new pd) tableIndices
      { cs with pdprIdx := i }

/-- The calls for an entry at level `PML4`. -/
def pml4Calls (A : PageAllocator σ) (hhdm : BitVec 64) (new old : TablePtr) (i : TableIndex)
    (cs : CloneState σ) : List (LeafCall σ) :=
  let pdpr := (cs.machine.mem old i).tableAddress + hhdm
  entryCalls pdpr (clonePdprEntry A hhdm new pdpr) (pdprCalls A hhdm new pdpr) tableIndices
    { cs with pml4Idx := i }

/-- **The calls of a clone**: none if there is no target. -/
def cloneCalls (A : PageAllocator σ) (hhdm : BitVec 64) (old new : TablePtr)
    (cs : CloneState σ) : List (LeafCall σ) :=
  let root := cloneRoot A hhdm new cs.machine
  if root = 0#64 then []
  else entryCalls old (clonePml4Entry A hhdm root old) (pml4Calls A hhdm root old) tableIndices
    { cs with machine := cloneStart A new cs.machine }

/-- **A part of a clone makes these calls**, and does nothing else to the machine. -/
def Makes (A : PageAllocator σ) (hhdm : BitVec 64) (new : TablePtr)
    (f : CloneState σ → CloneState σ) (calls : CloneState σ → List (LeafCall σ)) : Prop :=
  ∀ cs, CallChain LeafCall.machine (LeafCall.after A hhdm new) cs.machine (calls cs)
    (f cs).machine

section Makes

variable {t : TablePtr} {body : TableIndex → CloneState σ → CloneState σ}
variable {calls : TableIndex → CloneState σ → List (LeafCall σ)}

/-- The calls of a loop. -/
theorem makes_loop (hbody : ∀ i, Makes A hhdm new (body i) (calls i)) :
    Makes A hhdm new (forPresentEntries t body) (entryCalls t body calls tableIndices) := by
  intro cs
  unfold forPresentEntries
  induction tableIndices generalizing cs with
  | nil => exact .nil _
  | cons i is ih =>
    rw [List.foldl_cons, entryCalls]
    by_cases hp : (cs.machine.mem t i).present = true
    · rw [if_pos hp, if_pos hp]
      exact (hbody i cs).append (ih (body i cs))
    · rw [if_neg hp, if_neg hp]
      exact ih cs

/-- The call for a leaf. -/
theorem makes_leaf (size : PageSize) (virt : BitVec 64) (e : PageTableEntry) (cs : CloneState σ) :
    CallChain LeafCall.machine (LeafCall.after A hhdm new) cs.machine [⟨cs.machine, size, virt, e⟩]
      (cloneLeaf A hhdm new size e virt cs).machine :=
  CallChain.single (LeafCall.mk cs.machine size virt e)

theorem makes_pt (pt : TablePtr) (i : TableIndex) :
    Makes A hhdm new (clonePtEntry A hhdm new pt i) (ptCalls pt i) :=
  fun cs => makes_leaf .kb4 _ _ { cs with ptIdx := i }

theorem makes_pd (pd : TablePtr) (i : TableIndex) :
    Makes A hhdm new (clonePdEntry A hhdm new pd i) (pdCalls A hhdm new pd i) := by
  intro cs
  unfold clonePdEntry pdCalls
  by_cases hs : (cs.machine.mem pd i).pageSize = true
  · simp only [if_pos hs]
    exact makes_leaf .mb2 _ _ { cs with pdIdx := i }
  · simp only [if_neg hs]
    exact makes_loop (makes_pt _) { cs with pdIdx := i }

theorem makes_pdpr (pdpr : TablePtr) (i : TableIndex) :
    Makes A hhdm new (clonePdprEntry A hhdm new pdpr i) (pdprCalls A hhdm new pdpr i) := by
  intro cs
  unfold clonePdprEntry pdprCalls
  by_cases hs : (cs.machine.mem pdpr i).pageSize = true
  · simp only [if_pos hs]
    exact makes_leaf .gb1 _ _ { cs with pdprIdx := i }
  · simp only [if_neg hs]
    exact makes_loop (makes_pd _) { cs with pdprIdx := i }

theorem makes_pml4 (i : TableIndex) :
    Makes A hhdm new (clonePml4Entry A hhdm new old i) (pml4Calls A hhdm new old i) := by
  intro cs
  have hloop : Makes A hhdm new (clonePdpr A hhdm new ((cs.machine.mem old i).tableAddress + hhdm))
    (entryCalls ((cs.machine.mem old i).tableAddress + hhdm)
      (clonePdprEntry A hhdm new ((cs.machine.mem old i).tableAddress + hhdm))
      (pdprCalls A hhdm new ((cs.machine.mem old i).tableAddress + hhdm)) tableIndices) :=
    makes_loop (makes_pdpr _)
  exact hloop { cs with pml4Idx := i }

end Makes

/-! ## The index variables -/

/-- A part of a clone leaves the first `n` index variables as they were. -/
def KeepsIndices (n : ℕ) (f : CloneState σ → CloneState σ) : Prop :=
  ∀ cs, (f cs).indices.take n = cs.indices.take n

theorem KeepsIndices.atPath {p : List TableIndex} {f : CloneState σ → CloneState σ}
    (h : KeepsIndices p.length f) {cs : CloneState σ} (hat : AtPath p cs) : AtPath p (f cs) :=
  (h cs).trans hat

/-- One less is left, too. -/
theorem KeepsIndices.pred {n : ℕ} {f : CloneState σ → CloneState σ} (h : KeepsIndices (n + 1) f) :
    KeepsIndices n f := by
  intro cs
  have htake := congrArg (List.take n) (h cs)
  rwa [List.take_take, List.take_take, Nat.min_eq_left (Nat.le_succ n)] at htake

theorem keepsIndices_loop {n : ℕ} {t : TablePtr}
    {body : TableIndex → CloneState σ → CloneState σ} (hbody : ∀ i, KeepsIndices n (body i)) :
    KeepsIndices n (forPresentEntries t body) := by
  intro cs
  unfold forPresentEntries
  induction tableIndices generalizing cs with
  | nil => rfl
  | cons i is ih =>
    rw [List.foldl_cons, ih]
    by_cases hp : (cs.machine.mem t i).present = true
    · rw [if_pos hp, hbody i cs]
    · rw [if_neg hp]

theorem keepsIndices_pt (pt : TablePtr) (i : TableIndex) :
    KeepsIndices 3 (clonePtEntry A hhdm new pt i) := fun _ => rfl

theorem keepsIndices_pd (pd : TablePtr) (i : TableIndex) :
    KeepsIndices 2 (clonePdEntry A hhdm new pd i) := by
  intro cs
  unfold clonePdEntry
  by_cases hs : (cs.machine.mem pd i).pageSize = true
  · simp only [if_pos hs]
    rfl
  · simp only [if_neg hs]
    exact (keepsIndices_loop (keepsIndices_pt _)).pred { cs with pdIdx := i }

theorem keepsIndices_pdpr (pdpr : TablePtr) (i : TableIndex) :
    KeepsIndices 1 (clonePdprEntry A hhdm new pdpr i) := by
  intro cs
  unfold clonePdprEntry
  by_cases hs : (cs.machine.mem pdpr i).pageSize = true
  · simp only [if_pos hs]
    rfl
  · simp only [if_neg hs]
    exact (keepsIndices_loop (keepsIndices_pd _)).pred { cs with pdprIdx := i }

theorem keepsIndices_pml4 (i : TableIndex) :
    KeepsIndices 0 (clonePml4Entry A hhdm new old i) := fun _ => by
  rw [List.take_zero, List.take_zero]

section Paths

variable {p : List TableIndex} {cs : CloneState σ}

/-- The path of the page that an entry of a PT maps. -/
theorem AtPath.pt (hat : AtPath p cs) (hlen : p.length = 3) (i : TableIndex) :
    pagePath .kb4 (pagingGetVirtAddressFromIndices cs.pml4Idx cs.pdprIdx cs.pdIdx i)
      = p ++ [i] := by
  rw [AtPath, hlen] at hat
  rw [pagePath_assembled, ← hat]
  rfl

/-- That of a page in a PD. -/
theorem AtPath.pd (hat : AtPath p cs) (hlen : p.length = 2) (i : TableIndex) :
    pagePath .mb2 (pagingGetVirtAddressFromIndices cs.pml4Idx cs.pdprIdx i 0) = p ++ [i] := by
  rw [AtPath, hlen] at hat
  rw [pagePath_assembled, ← hat]
  rfl

/-- That of a page in a PDPR. -/
theorem AtPath.pdpr (hat : AtPath p cs) (hlen : p.length = 1) (i : TableIndex) :
    pagePath .gb1 (pagingGetVirtAddressFromIndices cs.pml4Idx i 0 0) = p ++ [i] := by
  rw [AtPath, hlen] at hat
  rw [pagePath_assembled, ← hat]
  rfl

/-- The path of the table that an entry of a PD names. -/
theorem AtPath.snoc_pd (hat : AtPath p cs) (hlen : p.length = 2) (i : TableIndex) :
    AtPath (p ++ [i]) { cs with pdIdx := i } := by
  rw [AtPath, hlen] at hat
  rw [AtPath, List.length_append, hlen, ← hat]
  rfl

/-- That of a table below a PDPR. -/
theorem AtPath.snoc_pdpr (hat : AtPath p cs) (hlen : p.length = 1) (i : TableIndex) :
    AtPath (p ++ [i]) { cs with pdprIdx := i } := by
  rw [AtPath, hlen] at hat
  rw [AtPath, List.length_append, hlen, ← hat]
  rfl

end Paths

/-! ## What is kept -/

/-- **What is present is kept**: in the tables of a root no present entry has changed. -/
def PresentKept (hhdm : BitVec 64) (root : TablePtr) (s s' : Machine σ) : Prop :=
  ∀ t ∈ pageTables hhdm s.mem root, ∀ i, (s.mem t i).present = true → s'.mem t i = s.mem t i

namespace PresentKept

variable {root : TablePtr}

theorem refl (s : Machine σ) : PresentKept hhdm root s s := fun _ _ _ _ => rfl

/-- What was found under the root is found. -/
theorem found (h : PresentKept hhdm root s s') {q : List TableIndex}
    (hq : pageSlot hhdm s.mem root q ≠ .empty) :
    pageSlot hhdm s'.mem root q = pageSlot hhdm s.mem root q := by
  refine slotAt_of_kept hq fun r t ht i hfound => ?_
  rw [h t (mem_tables ht) i (by
    by_contra hp
    exact hfound (entrySlot_of_not_present (by simpa using hp) _))]

theorem leaf (h : PresentKept hhdm root s s') {q : List TableIndex} {e : PageTableEntry}
    (hq : pageSlot hhdm s.mem root q = .leaf e) : pageSlot hhdm s'.mem root q = .leaf e :=
  (h.found (by rw [hq]; simp)).trans hq

theorem table (h : PresentKept hhdm root s s') {q : List TableIndex} {t : TablePtr}
    (hq : pageSlot hhdm s.mem root q = .table t) : pageSlot hhdm s'.mem root q = .table t :=
  (h.found (by rw [hq]; simp)).trans hq

theorem trans (h : PresentKept hhdm root s s') (h' : PresentKept hhdm root s' s'') :
    PresentKept hhdm root s s'' := by
  rintro t ⟨q, hq⟩ i hp
  have hsame := h t (mem_tables hq) i hp
  rw [h' t (mem_tables (h.table hq)) i (by rw [hsame, hp]), hsame]

end PresentKept

/-! ## Entries of the old tables -/

section Entries

variable {p : List TableIndex} {t : TablePtr} {i : TableIndex}

/-- A present entry of a PT is a leaf. -/
theorem pageSlot_pt (hlen : p.length = 3) (ht : pageSlot hhdm s.mem old p = .table t)
    (hp : (s.mem t i).present = true) : pageSlot hhdm s.mem old (p ++ [i]) = .leaf (s.mem t i) := by
  rw [pageSlot, slotAt_snoc_of_table ht, hlen]
  simp [entrySlot, hp]

/-- A present entry of a PD or a PDPR that says it is a page is a leaf. -/
theorem pageSlot_large (hpos : 1 ≤ p.length) (hlen : p.length ≤ 2)
    (ht : pageSlot hhdm s.mem old p = .table t) (hp : (s.mem t i).present = true)
    (hs : (s.mem t i).pageSize = true) :
    pageSlot hhdm s.mem old (p ++ [i]) = .leaf (s.mem t i) := by
  rw [pageSlot, slotAt_snoc_of_table ht]
  obtain h | h : p.length = 1 ∨ p.length = 2 := by omega
  all_goals
    rw [h]
    simp [entrySlot, hp, hs]

/-- One that does not names a table. -/
theorem pageSlot_pointer (hlen : p.length ≤ 2) (ht : pageSlot hhdm s.mem old p = .table t)
    (hp : (s.mem t i).present = true) (hs : ¬ (s.mem t i).pageSize = true) :
    pageSlot hhdm s.mem old (p ++ [i]) = .table ((s.mem t i).tableAddress + hhdm) := by
  rw [pageSlot, slotAt_snoc_of_table ht]
  obtain h | h | h : p.length = 0 ∨ p.length = 1 ∨ p.length = 2 := by omega
  all_goals
    rw [h]
    simp [entrySlot, hp, hs]

/-- A present entry of the PML4 names one whatever it says. -/
theorem pageSlot_pdpr (hp : (s.mem old i).present = true) :
    pageSlot hhdm s.mem old [i] = .table ((s.mem old i).tableAddress + hhdm) := by
  have hroot : pageSlot hhdm s.mem old [] = .table old := rfl
  rw [show [i] = [] ++ [i] from rfl, pageSlot, slotAt_snoc_of_table hroot]
  simp [entrySlot, hp]

end Entries

/-! ## Every leaf is visited -/

/-- **The leaves under `r` are visited** by a part of a clone, with the index variables saying
that the table at `p` is being cloned: for each there is a call, as long as the calls keep what
is present in the old tables. -/
def Visits (A : PageAllocator σ) (hhdm : BitVec 64) (old new : TablePtr) (s₀ : Machine σ)
    (p r : List TableIndex) (calls : CloneState σ → List (LeafCall σ)) : Prop :=
  ∀ cs, AtPath p cs → PresentKept hhdm old s₀ cs.machine →
    (∀ c ∈ calls cs, PresentKept hhdm old c.machine (c.after A hhdm new)) →
    ∀ q e, r <+: q → pageSlot hhdm s₀.mem old q = .leaf e → ∃ c ∈ calls cs, c.path = q ∧ c.entry = e

section Visits

variable {p : List TableIndex} {t : TablePtr}

/-- **The loop rule.** If the leaves under each entry of a table are visited, the loop visits
those under the table. -/
theorem visits_loop {body : TableIndex → CloneState σ → CloneState σ}
    {calls : TableIndex → CloneState σ → List (LeafCall σ)}
    (ht : pageSlot hhdm s₀.mem old p = .table t) (hmakes : ∀ i, Makes A hhdm new (body i) (calls i))
    (hidx : ∀ i, KeepsIndices p.length (body i))
    (hbody : ∀ i, (s₀.mem t i).present = true →
      Visits A hhdm old new s₀ p (p ++ [i]) (calls i)) :
    Visits A hhdm old new s₀ p p (entryCalls t body calls tableIndices) := by
  have hall : ∀ is cs, AtPath p cs → PresentKept hhdm old s₀ cs.machine →
      (∀ c ∈ entryCalls t body calls is cs,
        PresentKept hhdm old c.machine (c.after A hhdm new)) →
      ∀ i ∈ is, ∀ q e, p ++ [i] <+: q → pageSlot hhdm s₀.mem old q = .leaf e →
        ∃ c ∈ entryCalls t body calls is cs, c.path = q ∧ c.entry = e := by
    intro is
    induction is with
    | nil => exact fun _ _ _ _ i hi => absurd hi List.not_mem_nil
    | cons k is ih =>
      intro cs hat hkept hcalls i hi q e hq he
      -- an entry with a leaf below it is present, and is still
      have hp₀ : (s₀.mem t i).present = true := by
        by_contra hp
        exact not_leaf_of_not_present ht (by simpa using hp) hq he
      have hp : (cs.machine.mem t i).present = true := by
        rw [hkept t (mem_tables ht) i hp₀, hp₀]
      rw [entryCalls] at hcalls ⊢
      by_cases hk : (cs.machine.mem t k).present = true
      · rw [if_pos hk] at hcalls ⊢
        rcases List.mem_cons.mp hi with rfl | hi
        · obtain ⟨c, hc, hcall⟩ := hbody i hp₀ cs hat hkept
            (fun c hc => hcalls c (List.mem_append_left _ hc)) q e hq he
          exact ⟨c, List.mem_append_left _ hc, hcall⟩
        · have hnext : PresentKept hhdm old cs.machine (body k cs).machine :=
            (hmakes k cs).keeps PresentKept.refl PresentKept.trans fun c hc =>
              hcalls c (List.mem_append_left _ hc)
          obtain ⟨c, hc, hcall⟩ := ih (body k cs) ((hidx k).atPath hat) (hkept.trans hnext)
            (fun c hc => hcalls c (List.mem_append_right _ hc)) i hi q e hq he
          exact ⟨c, List.mem_append_right _ hc, hcall⟩
      · rw [if_neg hk] at hcalls ⊢
        rcases List.mem_cons.mp hi with rfl | hi
        · exact absurd hp hk
        · exact ih cs hat hkept hcalls i hi q e hq he
  intro cs hat hkept hcalls q e hq he
  obtain ⟨r, rfl⟩ := hq
  cases r with
  | nil =>
    rw [List.append_nil, ht] at he
    cases he
  | cons i r =>
    exact hall tableIndices cs hat hkept hcalls i (mem_tableIndices i) _ e
      ⟨r, (List.append_cons p i r).symm⟩ he

/-- **A leaf is visited** by the call for it. -/
theorem visits_leaf {size : PageSize} {virt : BitVec 64} {r q : List TableIndex}
    {e e' : PageTableEntry} (hpath : pagePath size virt = r)
    (hleaf : pageSlot hhdm s₀.mem old r = .leaf e') (hq : r <+: q)
    (he : pageSlot hhdm s₀.mem old q = .leaf e) (cs : CloneState σ) :
    ∃ c ∈ [LeafCall.mk cs.machine size virt e'], c.path = q ∧ c.entry = e := by
  have hqr : r = q := by
    by_contra hne
    obtain ⟨t, ht⟩ := exists_table_of_prefix he hq hne
    cases hleaf.symm.trans ht
  subst hqr
  exact ⟨_, List.mem_singleton_self _, hpath, Slot.leaf.inj (hleaf.symm.trans he)⟩

/-- Level `PT`. -/
theorem visits_pt (hlen : p.length = 3) (ht : pageSlot hhdm s₀.mem old p = .table t)
    (i : TableIndex) (hp : (s₀.mem t i).present = true) :
    Visits A hhdm old new s₀ p (p ++ [i]) (ptCalls t i) := by
  intro cs hat hkept _ q e hq he
  have hentry := hkept t (mem_tables ht) i hp
  rw [ptCalls, hentry]
  exact visits_leaf (hat.pt hlen i) (pageSlot_pt hlen ht hp) hq he cs

/-- Level `PD`. -/
theorem visits_pd (hlen : p.length = 2) (ht : pageSlot hhdm s₀.mem old p = .table t)
    (i : TableIndex) (hp : (s₀.mem t i).present = true) :
    Visits A hhdm old new s₀ p (p ++ [i]) (pdCalls A hhdm new t i) := by
  intro cs hat hkept hcalls q e hq he
  have hentry := hkept t (mem_tables ht) i hp
  unfold pdCalls at hcalls ⊢
  rw [hentry] at hcalls ⊢
  by_cases hs : (s₀.mem t i).pageSize = true
  · simp only [if_pos hs]
    exact visits_leaf (hat.pd hlen i) (pageSlot_large (by omega) (by omega) ht hp hs) hq he cs
  · simp only [if_neg hs] at hcalls ⊢
    have hlen' : (p ++ [i]).length = 3 := by rw [List.length_append, hlen]; rfl
    have htable := pageSlot_pointer (by omega) ht hp hs
    exact visits_loop htable (makes_pt _) (fun j => hlen' ▸ keepsIndices_pt _ j)
      (visits_pt hlen' htable) { cs with pdIdx := i } (hat.snoc_pd hlen i) hkept hcalls q e hq he

/-- Level `PDPR`. -/
theorem visits_pdpr (hlen : p.length = 1) (ht : pageSlot hhdm s₀.mem old p = .table t)
    (i : TableIndex) (hp : (s₀.mem t i).present = true) :
    Visits A hhdm old new s₀ p (p ++ [i]) (pdprCalls A hhdm new t i) := by
  intro cs hat hkept hcalls q e hq he
  have hentry := hkept t (mem_tables ht) i hp
  unfold pdprCalls at hcalls ⊢
  rw [hentry] at hcalls ⊢
  by_cases hs : (s₀.mem t i).pageSize = true
  · simp only [if_pos hs]
    exact visits_leaf (hat.pdpr hlen i) (pageSlot_large (by omega) (by omega) ht hp hs) hq he cs
  · simp only [if_neg hs] at hcalls ⊢
    have hlen' : (p ++ [i]).length = 2 := by rw [List.length_append, hlen]; rfl
    have htable := pageSlot_pointer (by omega) ht hp hs
    exact visits_loop htable (makes_pd _) (fun j => hlen' ▸ keepsIndices_pd _ j)
      (visits_pd hlen' htable) { cs with pdprIdx := i } (hat.snoc_pdpr hlen i) hkept hcalls q e hq
      he

/-- Level `PML4`. -/
theorem visits_pml4 (i : TableIndex) (hp : (s₀.mem old i).present = true) :
    Visits A hhdm old new s₀ [] ([] ++ [i]) (pml4Calls A hhdm new old i) := by
  intro cs _ hkept hcalls q e hq he
  have hentry := hkept old root_mem_tables i hp
  have htable : pageSlot hhdm s₀.mem old [i] = .table ((s₀.mem old i).tableAddress + hhdm) :=
    pageSlot_pdpr hp
  unfold pml4Calls at hcalls ⊢
  rw [hentry] at hcalls ⊢
  exact visits_loop htable (makes_pdpr _) (keepsIndices_pdpr _) (visits_pdpr rfl htable)
    { cs with pml4Idx := i } rfl hkept hcalls q e hq he

end Visits

/-! ## No path is visited twice -/

/-- **The calls are for leaves under `r`**, with the index variables saying that the table at `p`
is being cloned, and no two of them for the same path. -/
def Spread (p r : List TableIndex) (calls : CloneState σ → List (LeafCall σ)) : Prop :=
  ∀ cs, AtPath p cs → (∀ c ∈ calls cs, r <+: c.path) ∧
    (calls cs).Pairwise fun c d => c.path ≠ d.path

section Spread

variable {p : List TableIndex}

/-- **The loop rule.** -/
theorem spread_loop {t : TablePtr} {body : TableIndex → CloneState σ → CloneState σ}
    {calls : TableIndex → CloneState σ → List (LeafCall σ)}
    (hidx : ∀ i, KeepsIndices p.length (body i)) (hbody : ∀ i, Spread p (p ++ [i]) (calls i)) :
    Spread p p (entryCalls t body calls tableIndices) := by
  have hall : ∀ is : List TableIndex, is.Pairwise (· < ·) → ∀ cs, AtPath p cs →
      (∀ c ∈ entryCalls t body calls is cs, ∃ i ∈ is, p ++ [i] <+: c.path) ∧
        (entryCalls t body calls is cs).Pairwise fun c d => c.path ≠ d.path := by
    intro is his
    induction is with
    | nil => exact fun _ _ => ⟨fun c hc => absurd hc List.not_mem_nil, List.Pairwise.nil⟩
    | cons k is ih =>
      intro cs hat
      obtain ⟨hlt, his⟩ := List.pairwise_cons.mp his
      rw [entryCalls]
      by_cases hk : (cs.machine.mem t k).present = true
      · obtain ⟨hunder, hdistinct⟩ := hbody k cs hat
        obtain ⟨hunder', hdistinct'⟩ := ih his (body k cs) ((hidx k).atPath hat)
        rw [if_pos hk]
        refine ⟨fun c hc => ?_, List.pairwise_append.mpr ⟨hdistinct, hdistinct', ?_⟩⟩
        · rcases List.mem_append.mp hc with hc | hc
          · exact ⟨k, List.mem_cons_self, hunder c hc⟩
          · obtain ⟨i, hi, hpath⟩ := hunder' c hc
            exact ⟨i, List.mem_cons_of_mem _ hi, hpath⟩
        · -- the indices behind `p` differ
          intro c hc d hd heq
          obtain ⟨i, hi, hpath⟩ := hunder' d hd
          have hki : p ++ [k] = p ++ [i] :=
            (List.prefix_of_prefix_length_le (heq ▸ hunder c hc) hpath
              (by simp)).eq_of_length (by simp)
          have hlt := hlt i hi
          rw [List.singleton_inj.mp (List.append_cancel_left hki)] at hlt
          exact BitVec.lt_irrefl i hlt
      · rw [if_neg hk]
        obtain ⟨hunder, hdistinct⟩ := ih his cs hat
        refine ⟨fun c hc => ?_, hdistinct⟩
        obtain ⟨i, hi, hpath⟩ := hunder c hc
        exact ⟨i, List.mem_cons_of_mem _ hi, hpath⟩
  intro cs hat
  obtain ⟨hunder, hdistinct⟩ := hall tableIndices pairwise_tableIndices cs hat
  refine ⟨fun c hc => ?_, hdistinct⟩
  obtain ⟨i, -, hpath⟩ := hunder c hc
  exact (List.prefix_append p [i]).trans hpath

/-- One call. -/
theorem spread_leaf {r : List TableIndex} {c : LeafCall σ} (hpath : c.path = r) :
    (∀ d ∈ [c], r <+: d.path) ∧ [c].Pairwise fun c d => c.path ≠ d.path := by
  refine ⟨fun d hd => ?_, List.pairwise_singleton _ _⟩
  rw [List.mem_singleton.mp hd, hpath]

theorem spread_pt (hlen : p.length = 3) (pt : TablePtr) (i : TableIndex) :
    Spread p (p ++ [i]) (ptCalls pt i : CloneState σ → List (LeafCall σ)) :=
  fun _ hat => spread_leaf (hat.pt hlen i)

theorem spread_pd (hlen : p.length = 2) (pd : TablePtr) (i : TableIndex) :
    Spread p (p ++ [i]) (pdCalls A hhdm new pd i) := by
  intro cs hat
  unfold pdCalls
  by_cases hs : (cs.machine.mem pd i).pageSize = true
  · simp only [if_pos hs]
    exact spread_leaf (hat.pd hlen i)
  · simp only [if_neg hs]
    have hlen' : (p ++ [i]).length = 3 := by rw [List.length_append, hlen]; rfl
    exact spread_loop (fun j => hlen' ▸ keepsIndices_pt _ j) (spread_pt hlen' _)
      { cs with pdIdx := i } (hat.snoc_pd hlen i)

theorem spread_pdpr (hlen : p.length = 1) (pdpr : TablePtr) (i : TableIndex) :
    Spread p (p ++ [i]) (pdprCalls A hhdm new pdpr i) := by
  intro cs hat
  unfold pdprCalls
  by_cases hs : (cs.machine.mem pdpr i).pageSize = true
  · simp only [if_pos hs]
    exact spread_leaf (hat.pdpr hlen i)
  · simp only [if_neg hs]
    have hlen' : (p ++ [i]).length = 2 := by rw [List.length_append, hlen]; rfl
    exact spread_loop (fun j => hlen' ▸ keepsIndices_pd _ j) (spread_pd hlen' _)
      { cs with pdprIdx := i } (hat.snoc_pdpr hlen i)

theorem spread_pml4 (i : TableIndex) :
    Spread [] ([] ++ [i]) (pml4Calls A hhdm new old i) := by
  intro cs _
  have hloop : Spread [i] [i] (entryCalls ((cs.machine.mem old i).tableAddress + hhdm)
      (clonePdprEntry A hhdm new ((cs.machine.mem old i).tableAddress + hhdm))
      (pdprCalls A hhdm new ((cs.machine.mem old i).tableAddress + hhdm)) tableIndices) :=
    spread_loop (keepsIndices_pdpr _) (spread_pdpr rfl _)
  exact hloop { cs with pml4Idx := i } rfl

end Spread

/-! ## Only leaves are copied -/

/-- The entry of a call is a leaf that the old page table had at the start. -/
def LeafCall.Copies (hhdm : BitVec 64) (old : TablePtr) (s₀ : Machine σ) (c : LeafCall σ) : Prop :=
  pageSlot hhdm s₀.mem old c.path = .leaf c.entry

/-- **The calls copy leaves** of the old page table, from a state with `I` on, as long as those
that do keep `I`. -/
def Copying (A : PageAllocator σ) (hhdm : BitVec 64) (old new : TablePtr) (s₀ : Machine σ)
    (I : Machine σ → Prop) (p : List TableIndex) (calls : CloneState σ → List (LeafCall σ)) :
    Prop :=
  ∀ cs, AtPath p cs → I cs.machine →
    (∀ c ∈ calls cs, I c.machine → c.Copies hhdm old s₀ → I (c.after A hhdm new)) →
    ∀ c ∈ calls cs, I c.machine ∧ c.Copies hhdm old s₀

section Copying

variable {p : List TableIndex} {t : TablePtr} {I : Machine σ → Prop}

/-- **The loop rule**, with `I` keeping the table as it was. -/
theorem copying_loop {body : TableIndex → CloneState σ → CloneState σ}
    {calls : TableIndex → CloneState σ → List (LeafCall σ)} (hI : ∀ s, I s → s.mem t = s₀.mem t)
    (hmakes : ∀ i, Makes A hhdm new (body i) (calls i))
    (hidx : ∀ i, KeepsIndices p.length (body i))
    (hbody : ∀ i, (s₀.mem t i).present = true → Copying A hhdm old new s₀ I p (calls i)) :
    Copying A hhdm old new s₀ I p (entryCalls t body calls tableIndices) := by
  intro cs
  induction tableIndices generalizing cs with
  | nil => exact fun _ _ _ c hc => absurd hc List.not_mem_nil
  | cons k is ih =>
    intro hat hs hcalls
    rw [entryCalls] at hcalls ⊢
    by_cases hk : (cs.machine.mem t k).present = true
    · rw [if_pos hk] at hcalls ⊢
      have hfirst := hbody k (by rwa [← hI _ hs]) cs hat hs fun c hc =>
        hcalls c (List.mem_append_left _ hc)
      have hnext : I (body k cs).machine := (hmakes k cs).final hs fun c hc =>
        hcalls c (List.mem_append_left _ hc) (hfirst c hc).1 (hfirst c hc).2
      intro c hc
      rcases List.mem_append.mp hc with hc | hc
      · exact hfirst c hc
      · exact ih (body k cs) ((hidx k).atPath hat) hnext
          (fun c hc => hcalls c (List.mem_append_right _ hc)) c hc
    · rw [if_neg hk] at hcalls ⊢
      exact ih cs hat hs hcalls

/-- One call. -/
theorem copying_leaf {size : PageSize} {virt : BitVec 64} {r : List TableIndex}
    {e : PageTableEntry} {cs : CloneState σ} (hpath : pagePath size virt = r)
    (hleaf : pageSlot hhdm s₀.mem old r = .leaf e) (hs : I cs.machine) :
    ∀ c ∈ [LeafCall.mk cs.machine size virt e], I c.machine ∧ c.Copies hhdm old s₀ := by
  intro c hc
  rw [List.mem_singleton.mp hc]
  exact ⟨hs, by rwa [LeafCall.Copies, LeafCall.path, hpath]⟩

variable (hI : ∀ s, I s → ∀ t ∈ pageTables hhdm s₀.mem old, s.mem t = s₀.mem t)
include hI

theorem copying_pt (hlen : p.length = 3) (ht : pageSlot hhdm s₀.mem old p = .table t)
    (i : TableIndex) (hp : (s₀.mem t i).present = true) :
    Copying A hhdm old new s₀ I p (ptCalls t i) := by
  intro cs hat hs _
  rw [ptCalls, hI _ hs t (mem_tables ht)]
  exact copying_leaf (hat.pt hlen i) (pageSlot_pt hlen ht hp) hs

theorem copying_pd (hlen : p.length = 2) (ht : pageSlot hhdm s₀.mem old p = .table t)
    (i : TableIndex) (hp : (s₀.mem t i).present = true) :
    Copying A hhdm old new s₀ I p (pdCalls A hhdm new t i) := by
  intro cs hat hs hcalls
  unfold pdCalls at hcalls ⊢
  rw [hI _ hs t (mem_tables ht)] at hcalls ⊢
  by_cases hsize : (s₀.mem t i).pageSize = true
  · simp only [if_pos hsize]
    exact copying_leaf (hat.pd hlen i) (pageSlot_large (by omega) (by omega) ht hp hsize) hs
  · simp only [if_neg hsize] at hcalls ⊢
    have hlen' : (p ++ [i]).length = 3 := by rw [List.length_append, hlen]; rfl
    have htable := pageSlot_pointer (by omega) ht hp hsize
    exact copying_loop (fun s hs => hI s hs _ (mem_tables htable)) (makes_pt _)
      (fun j => hlen' ▸ keepsIndices_pt _ j) (copying_pt hI hlen' htable) { cs with pdIdx := i }
      (hat.snoc_pd hlen i) hs hcalls

theorem copying_pdpr (hlen : p.length = 1) (ht : pageSlot hhdm s₀.mem old p = .table t)
    (i : TableIndex) (hp : (s₀.mem t i).present = true) :
    Copying A hhdm old new s₀ I p (pdprCalls A hhdm new t i) := by
  intro cs hat hs hcalls
  unfold pdprCalls at hcalls ⊢
  rw [hI _ hs t (mem_tables ht)] at hcalls ⊢
  by_cases hsize : (s₀.mem t i).pageSize = true
  · simp only [if_pos hsize]
    exact copying_leaf (hat.pdpr hlen i) (pageSlot_large (by omega) (by omega) ht hp hsize) hs
  · simp only [if_neg hsize] at hcalls ⊢
    have hlen' : (p ++ [i]).length = 2 := by rw [List.length_append, hlen]; rfl
    have htable := pageSlot_pointer (by omega) ht hp hsize
    exact copying_loop (fun s hs => hI s hs _ (mem_tables htable)) (makes_pd _)
      (fun j => hlen' ▸ keepsIndices_pd _ j) (copying_pd hI hlen' htable) { cs with pdprIdx := i }
      (hat.snoc_pdpr hlen i) hs hcalls

theorem copying_pml4 (i : TableIndex) (hp : (s₀.mem old i).present = true) :
    Copying A hhdm old new s₀ I [] (pml4Calls A hhdm new old i) := by
  intro cs _ hs hcalls
  unfold pml4Calls at hcalls ⊢
  rw [hI _ hs old root_mem_tables] at hcalls ⊢
  have htable : pageSlot hhdm s₀.mem old [i] = .table ((s₀.mem old i).tableAddress + hhdm) :=
    pageSlot_pdpr hp
  exact copying_loop (p := [i]) (fun s hs => hI s hs _ (mem_tables htable)) (makes_pdpr _)
    (keepsIndices_pdpr _) (copying_pdpr hI rfl htable) { cs with pml4Idx := i } rfl hs hcalls

end Copying

/-! ## The whole clone -/

section Clone

variable {cs : CloneState σ} (hroot : cloneRoot A hhdm new cs.machine ≠ 0#64)
include hroot

/-- **A clone makes its calls**, one after the other. -/
theorem pagingClonePageTable_calls :
    CallChain LeafCall.machine (LeafCall.after A hhdm (cloneRoot A hhdm new cs.machine))
      (cloneStart A new cs.machine) (cloneCalls A hhdm old new cs)
      (pagingClonePageTable A hhdm old new .pml4 cs).2.2.machine := by
  rw [pagingClonePageTable_eq, if_neg hroot, cloneCalls, if_neg hroot]
  exact makes_loop makes_pml4 { cs with machine := cloneStart A new cs.machine }

/-- Every leaf of the old page table is visited. -/
theorem cloneCalls_visits (hkept : ∀ c ∈ cloneCalls A hhdm old new cs,
      PresentKept hhdm old c.machine (c.after A hhdm (cloneRoot A hhdm new cs.machine)))
    {q : List TableIndex} {e : PageTableEntry}
    (he : pageSlot hhdm cs.machine.mem old q = .leaf e) :
    ∃ c ∈ cloneCalls A hhdm old new cs, c.path = q ∧ c.entry = e := by
  rw [cloneCalls, if_neg hroot] at hkept ⊢
  have hstart : PresentKept hhdm old cs.machine (cloneStart A new cs.machine) :=
    fun _ _ _ _ => by rw [mem_cloneStart]
  exact visits_loop (p := []) rfl makes_pml4 keepsIndices_pml4 visits_pml4
    { cs with machine := cloneStart A new cs.machine } (atPath_nil _) hstart hkept q e
    List.nil_prefix he

/-- No path is visited twice. -/
theorem cloneCalls_distinct :
    (cloneCalls A hhdm old new cs).Pairwise fun c d => c.path ≠ d.path := by
  rw [cloneCalls, if_neg hroot]
  exact (spread_loop (p := []) keepsIndices_pml4 spread_pml4
    { cs with machine := cloneStart A new cs.machine } (atPath_nil _)).2

/-- While the old tables do not change, leaves of the old page table are copied. -/
theorem cloneCalls_copying {I : Machine σ → Prop}
    (hI : ∀ s, I s → ∀ t ∈ pageTables hhdm cs.machine.mem old, s.mem t = cs.machine.mem t)
    (hstart : I (cloneStart A new cs.machine))
    (hcalls : ∀ c ∈ cloneCalls A hhdm old new cs, I c.machine → c.Copies hhdm old cs.machine →
      I (c.after A hhdm (cloneRoot A hhdm new cs.machine))) :
    ∀ c ∈ cloneCalls A hhdm old new cs, I c.machine ∧ c.Copies hhdm old cs.machine := by
  rw [cloneCalls, if_neg hroot] at hcalls ⊢
  exact copying_loop (p := []) (fun s hs => hI s hs old root_mem_tables) makes_pml4
    keepsIndices_pml4 (copying_pml4 hI) { cs with machine := cloneStart A new cs.machine }
    (atPath_nil _) hstart hcalls

end Clone
