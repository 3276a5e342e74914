import Joes.PagingCloneCalls
import Joes.PagingShortage
import Mathlib.Data.List.Nodup

/-!
# When a clone is complete

`paging_clone_page_table` returns `PAGING_OK` as soon as it has a target, because what the mappings
return is dropped. So it has to be said when that is right, for any target: one that holds
something already, one whose tables are shared or contain themselves, or the old page table itself.
Here this is read off the calls of the clone, each in the state it is made in.

A call that copies a leaf of the old page table can find the path mapped to the same page already
(`LeafCall.Maps`), or the way to it free (`LeafCall.WayFree`). Otherwise there is a leaf in the way
that stays, and the clone is not complete. On a free way the leaf is mapped if there is a page for
each missing table (`LeafCall.PagesEnough`). If there is not, the path is empty after the call, so
if a leaf is found there in the end, a later call for another path has put it there: the two share
a table of the target. Nothing that is mapped is lost again, since a call keeps what is present in
the tables of both page tables (`LeafCall.PagesOrNull.kept`). This gives an exact condition
(`cloneComplete_iff`).

In a target that is a tree apart from the old tables, no call maps the path of another
(`not_mapsFor`). A call makes the tree grow by tables and by its own leaf only, and it stays a
tree, also if a mapping runs out of pages. What has to hold then is that there are pages enough,
and with fresh pages only, it can be checked before the clone starts
(`pagingClonePageTable_complete_iff`).
-/

open PageTableEntry RadixHeap

variable {σ : Type} {A : PageAllocator σ} {hhdm : BitVec 64} {old new : TablePtr}
variable {s₀ s s' s'' : Machine σ}

/-! ## What becomes of a leaf -/

namespace LeafCall

variable (A hhdm old new) in
/-- **What `pmm_alloc` may hand out** during the call: a page for each missing table that is no
table of either page table, or `NULL`. -/
def PagesOrNull (c : LeafCall σ) : Prop :=
  FreshOrNull A hhdm (missingTables hhdm c.machine.mem (pageSteps c.size c.virt) new)
    (pageTables hhdm c.machine.mem old ∪ pageTables hhdm c.machine.mem new) c.machine.pmm

variable (hhdm new) in
/-- **The path is mapped to the page** of the entry. -/
def Maps (c : LeafCall σ) (s : Machine σ) : Prop :=
  ∃ e, pageSlot hhdm s.mem new c.path = .leaf e ∧ e.pageBase c.size = c.entry.pageBase c.size

variable (hhdm new) in
/-- **The way is free** when the call is made: there is no leaf above the path, and nothing at
it. -/
def WayFree (c : LeafCall σ) : Prop :=
  (∀ q, q <+: tablePath c.size c.virt → (pageSlot hhdm c.machine.mem new q).leaf? = none) ∧
    pageSlot hhdm c.machine.mem new c.path = .empty

variable (A hhdm new) in
/-- **There are pages enough** for the tables that are missing. -/
def PagesEnough (c : LeafCall σ) : Prop :=
  let n := missingTables hhdm c.machine.mem (pageSteps c.size c.virt) new
  pagesBeforeNull A hhdm n c.machine.pmm = n

variable (A hhdm new) in
/-- **The call maps the path of another one** as well, to the page of that one. -/
def MapsFor (d c : LeafCall σ) : Prop :=
  pageSlot hhdm d.machine.mem new c.path = .empty ∧ c.Maps hhdm new (d.after A hhdm new)

variable {c : LeafCall σ}

/-- A call keeps what is present in the tables of both page tables. -/
theorem PagesOrNull.kept (h : c.PagesOrNull A hhdm old new) :
    PresentKept hhdm old c.machine (c.after A hhdm new) ∧
      PresentKept hhdm new c.machine (c.after A hhdm new) :=
  ⟨fun _ ht _ hp => pagingMapPage_kept h (Or.inl ht) hp,
    fun _ ht _ hp => pagingMapPage_kept h (Or.inr ht) hp⟩

/-- A path that is mapped stays so. -/
theorem Maps.kept (h : c.Maps hhdm new s) (hkept : PresentKept hhdm new s s') :
    c.Maps hhdm new s' := by
  obtain ⟨e, he, hbase⟩ := h
  exact ⟨e, hkept.leaf he, hbase⟩

/-- **A leaf is mapped** if its way is free and there are pages enough. -/
theorem maps_after (hw : hhdm.toNat + 2 ^ 40 ≤ 2 ^ 64) (hpages : c.PagesOrNull A hhdm old new)
    (hcopy : c.Copies hhdm old s₀) (hfree : c.WayFree hhdm new)
    (henough : c.PagesEnough A hhdm new) : c.Maps hhdm new (c.after A hhdm new) := by
  rcases pagingMapPage_outcome hw Set.subset_union_right hpages (leafFlags_of_pageSlot hcopy)
    hfree.1 hfree.2 with ⟨-, s', hrun, hleaf⟩ | ⟨hfew, -⟩
  · rw [pagingCreateEntry_pageBase_getFlags] at hleaf
    refine ⟨c.entry, ?_, rfl⟩
    rw [after, hrun]
    exact hleaf
  · exact absurd henough (Nat.ne_of_lt hfew)

/-- **Where a leaf is found in the end**, its path was mapped to its page before the call, or the
way was free. -/
theorem maps_or_wayFree (h : c.Maps hhdm new s') (hkept : PresentKept hhdm new c.machine s') :
    c.Maps hhdm new c.machine ∨ c.WayFree hhdm new := by
  obtain ⟨e, he, hbase⟩ := h
  cases hs : pageSlot hhdm c.machine.mem new c.path with
  | table t => cases he.symm.trans (hkept.table hs)
  | leaf x =>
    left
    exact ⟨x, hs, Slot.leaf.inj (he.symm.trans (hkept.leaf hs)) ▸ hbase⟩
  | empty =>
    refine .inr ⟨fun q hq => ?_, hs⟩
    have hprefix : q <+: c.path := by
      rw [path, pagePath_eq_snoc]
      exact hq.trans (List.prefix_append _ _)
    have hne : q ≠ c.path := by
      rintro rfl
      have hle := hq.length_le
      rw [path, pagePath_eq_snoc, List.length_append, List.length_singleton] at hle
      omega
    obtain ⟨t, ht⟩ := exists_table_of_prefix he hprefix hne
    cases hx : pageSlot hhdm c.machine.mem new q with
    | leaf x => cases ht.symm.trans (hkept.leaf hx)
    | empty => rfl
    | table u => rfl

/-- **Without pages enough** its path is empty still: the error of the call is dropped. -/
theorem empty_after (hw : hhdm.toNat + 2 ^ 40 ≤ 2 ^ 64) (hpages : c.PagesOrNull A hhdm old new)
    (hcopy : c.Copies hhdm old s₀) (hfree : c.WayFree hhdm new)
    (hfew : ¬ c.PagesEnough A hhdm new) :
    pageSlot hhdm (c.after A hhdm new).mem new c.path = .empty := by
  rcases pagingMapPage_outcome hw Set.subset_union_right hpages (leafFlags_of_pageSlot hcopy)
    hfree.1 hfree.2 with ⟨hall, -⟩ | ⟨-, -, s', hrun, hgave⟩
  · exact absurd hall hfew
  · have hprefix : tablePath c.size c.virt <+: c.path := by
      rw [path, pagePath_eq_snoc]
      exact List.prefix_append _ _
    rw [after, hrun]
    exact hgave.empty hprefix

/-- **What maps a path** that was not mapped to its page finds it empty. -/
theorem Maps.mapsFor {d : LeafCall σ} (h : c.Maps hhdm new (d.after A hhdm new))
    (hkept : PresentKept hhdm new d.machine (d.after A hhdm new))
    (hbefore : ¬ c.Maps hhdm new d.machine) : d.MapsFor A hhdm new c := by
  refine ⟨?_, h⟩
  obtain ⟨e, he, hbase⟩ := h
  by_contra hfound
  exact hbefore ⟨e, (hkept.found hfound).symm.trans he, hbase⟩

end LeafCall

/-! ## Into any PML4 -/

/-- **A complete clone**: every leaf of the old tree is in the new one, with the
same page size and the same base. -/
def CloneComplete (hhdm : BitVec 64) (old new : TablePtr) (s s' : Machine σ) : Prop :=
  ∀ size v e, pageSlot hhdm s.mem old (pagePath size v) = .leaf e →
    ∃ e', pageSlot hhdm s'.mem new (pagePath size v) = .leaf e' ∧ e'.pageBase size = e.pageBase size

/-- **When calls that visit every leaf once make a complete clone.** -/
theorem cloneComplete_iff (hw : hhdm.toNat + 2 ^ 40 ≤ 2 ^ 64) {calls : List (LeafCall σ)}
    (hchain : CallChain LeafCall.machine (LeafCall.after A hhdm new) s calls s')
    (hpages : ∀ c ∈ calls, c.PagesOrNull A hhdm old new)
    (hvisits : ∀ {q e}, pageSlot hhdm s₀.mem old q = .leaf e →
      ∃ c ∈ calls, c.path = q ∧ c.entry = e)
    (hdistinct : calls.Pairwise fun c d => c.path ≠ d.path) :
    CloneComplete hhdm old new s₀ s' ↔
      ∀ c ∈ calls, c.Copies hhdm old s₀ → c.Maps hhdm new c.machine ∨ c.WayFree hhdm new ∧
        (c.PagesEnough A hhdm new ∨ ∃ d ∈ calls, d.path ≠ c.path ∧ d.MapsFor A hhdm new c) := by
  have hkept : ∀ c ∈ calls, PresentKept hhdm new c.machine (c.after A hhdm new) :=
    fun c hc => (hpages c hc).kept.2
  have hsplit : ∀ c ∈ calls, PresentKept hhdm new s c.machine ∧
      PresentKept hhdm new (c.after A hhdm new) s' :=
    fun _ => hchain.keeps_of_mem PresentKept.refl PresentKept.trans hkept
  constructor
  · intro h c hc hcopy
    have hfinal : c.Maps hhdm new s' := h c.size c.virt c.entry hcopy
    obtain ⟨hto, hfrom⟩ := hsplit c hc
    rcases LeafCall.maps_or_wayFree hfinal ((hkept c hc).trans hfrom) with hmaps | hfree
    · exact .inl hmaps
    · refine .inr ⟨hfree, or_iff_not_imp_left.mpr fun hfew => ?_⟩
      -- the path is not mapped up to this call, so one of the calls maps it
      have hstart : ¬ c.Maps hhdm new s := by
        intro hmaps
        obtain ⟨e, he, -⟩ := hmaps.kept hto
        cases hfree.2.symm.trans he
      obtain ⟨d, hd, hbefore, hafter⟩ := hchain.exists_call hstart hfinal
      refine ⟨d, hd, fun hpath => ?_, hafter.mapsFor (hkept d hd) hbefore⟩
      -- which is not the one for the path itself
      obtain rfl : d = c :=
        List.inj_on_of_nodup_map (List.pairwise_map.mpr hdistinct) hd hc hpath
      obtain ⟨e, he, -⟩ := hafter
      cases (LeafCall.empty_after hw (hpages d hd) hcopy hfree hfew).symm.trans he
  · intro h size v e he
    obtain ⟨c, hc, hpath, rfl⟩ := hvisits he
    have hsize : c.size = size := by
      have hlen := congrArg List.length hpath
      rw [LeafCall.path, length_pagePath, length_pagePath] at hlen
      cases hs : c.size <;> cases size <;> first | rfl | simp [PageSize.pathLength, hs] at hlen
    obtain ⟨hto, hfrom⟩ := hsplit c hc
    have hcopy : c.Copies hhdm old s₀ := by rwa [LeafCall.Copies, hpath]
    have hmaps : c.Maps hhdm new s' := by
      rcases h c hc hcopy with hmaps | ⟨hfree, henough | ⟨d, hd, -, -, hmaps⟩⟩
      · exact hmaps.kept ((hkept c hc).trans hfrom)
      · exact (LeafCall.maps_after hw (hpages c hc) hcopy hfree henough).kept hfrom
      · exact hmaps.kept (hsplit d hd).2
    rwa [LeafCall.Maps, hpath, hsize] at hmaps

/-! ## Into a tree -/

/-- **A target that is a tree apart from the old tables**, with these as they were. -/
structure TreeApart (hhdm : BitVec 64) (old new : TablePtr) (s₀ s : Machine σ) : Prop where
  tree : Unshared (entrySlot hhdm) s.mem new
  apart : ∀ t ∈ pageTables hhdm s₀.mem old, t ∉ pageTables hhdm s.mem new
  same : ∀ t ∈ pageTables hhdm s₀.mem old, s.mem t = s₀.mem t

/-- **What a copying call does to a tree**: it stays apart from the old tables, and the leaves of
other paths were there. -/
theorem LeafCall.grown {c : LeafCall σ} (h : TreeApart hhdm old new s₀ c.machine)
    (hpages : c.PagesOrNull A hhdm old new) (hcopy : c.Copies hhdm old s₀)
    (hway : c.Maps hhdm new c.machine ∨ c.WayFree hhdm new) :
    TreeApart hhdm old new s₀ (c.after A hhdm new) ∧ ∀ q ≠ c.path, ∀ e,
      pageSlot hhdm (c.after A hhdm new).mem new q = .leaf e →
        pageSlot hhdm c.machine.mem new q = .leaf e := by
  rcases hway with ⟨e, he, -⟩ | hfree
  · -- the path is in use, so nothing is done
    have hafter : c.after A hhdm new = c.machine := by
      rw [after, pagingMapPage_of_occupied _ _ (by rw [← path, he]; simp)]
    rw [hafter]
    exact ⟨h, fun _ _ _ hq => hq⟩
  · have hgrown : Grown hhdm new c.path
        (pageTables hhdm c.machine.mem old ∪ pageTables hhdm c.machine.mem new) c.machine
        (c.after A hhdm new) :=
      pagingMapPage_grown h.tree Set.subset_union_right hpages (leafFlags_of_pageSlot hcopy) hfree.1
    have hused : ∀ t ∈ pageTables hhdm s₀.mem old,
        t ∈ pageTables hhdm c.machine.mem old ∪ pageTables hhdm c.machine.mem new := by
      rintro t ⟨q, hq⟩
      exact .inl ⟨q, by rwa [slotAt_congr_of_eqOn h.same]⟩
    refine ⟨⟨hgrown.tree, fun t ht hmem => ?_, fun t ht => ?_⟩, fun q hq e => hgrown.leaf q hq e⟩
    · exact h.apart t ht (hgrown.tables t (hused t ht) hmem)
    · exact (hgrown.frame t (hused t ht) (h.apart t ht)).trans (h.same t ht)

/-- **In a tree no call maps the path of another.** -/
theorem not_mapsFor {c d : LeafCall σ}
    (h : TreeApart hhdm old new s₀ d.machine) (hpages : d.PagesOrNull A hhdm old new)
    (hcopy : d.Copies hhdm old s₀) (hway : d.Maps hhdm new d.machine ∨ d.WayFree hhdm new)
    (hne : d.path ≠ c.path) : ¬ d.MapsFor A hhdm new c := by
  rintro ⟨hempty, e, he, -⟩
  obtain ⟨-, hleaf⟩ := d.grown h hpages hcopy hway
  cases hempty.symm.trans (hleaf c.path (Ne.symm hne) e he)

/-- **Into a tree with fresh pages**, a clone is complete if no leaf of the target is in the way of
the old ones at the start. -/
theorem cloneComplete_of_tree (hw : hhdm.toNat + 2 ^ 40 ≤ 2 ^ 64) {cs : CloneState σ}
    (hmem : cs.machine.mem = s₀.mem) (htree : TreeApart hhdm old new s₀ s₀)
    (hway : ∀ size v e, pageSlot hhdm s₀.mem old (pagePath size v) = .leaf e →
      let c := LeafCall.mk s₀ size v e
      c.Maps hhdm new s₀ ∨ c.WayFree hhdm new)
    (hfresh : FreshBetween A hhdm (pageTables hhdm s₀.mem new ∪ pageTables hhdm s₀.mem old)
      cs.machine (clonePml4 A hhdm new old cs).machine) :
    CloneComplete hhdm old new s₀ (clonePml4 A hhdm new old cs).machine := by
  obtain ⟨htree, hapart, -⟩ := htree
  simp only [LeafCall.Maps, LeafCall.WayFree, LeafCall.path] at hway
  unfold CloneComplete
  rw [← hmem] at htree hapart hway hfresh ⊢
  have hclear : ∀ p q e, pageSlot hhdm cs.machine.mem old p = .leaf e → q <+: p → q ≠ p →
      (pageSlot hhdm cs.machine.mem new q).leaf? = none := by
    intro p q e he hq hne
    obtain ⟨size, v, -, rfl⟩ := exists_page_of_leaf he
    rcases hway size v e he with ⟨e', he', -⟩ | ⟨habove, -⟩
    · obtain ⟨t, ht⟩ := exists_table_of_prefix he' hq hne
      rw [ht]
      rfl
    · refine habove q ?_
      rw [pagePath_eq_snoc] at hq hne
      exact (List.prefix_concat_iff.mp hq).resolve_left hne
  obtain ⟨hstep, -⟩ := clonePml4_copy hw (CloneTwin.refl cs)
    (copyState_start htree hapart hclear hfresh.pages) le_rfl
  intro size v e he
  rcases hstep.copied (pagePath size v) with hsame | ⟨-, ⟨e', he', hcopy⟩ | ⟨t, c, ht, -⟩⟩
  · rcases hway size v e he with ⟨e', he', hbase⟩ | ⟨-, hempty⟩
    · exact ⟨e', hsame.trans he', hbase⟩
    · exact absurd (hsame.trans hempty) (hstep.filled _ e List.nil_prefix he)
  · exact ⟨e', hcopy, by rw [Slot.leaf.inj (he.symm.trans he')]⟩
  · cases he.symm.trans ht

/-! ## When a successful clone is complete -/

/-- Where only first entries are present, the calls of a loop over a table are those for the first
one. -/
theorem entryCalls_of_onlyFirst {t : TablePtr} {body : TableIndex → CloneState σ → CloneState σ}
    {calls : TableIndex → CloneState σ → List (LeafCall σ)} {cs cs' : CloneState σ}
    (hp : (cs.machine.mem t 0).present = true) (hbody : body 0 cs = cs')
    (h : OnlyFirst cs'.machine) : entryCalls t body calls tableIndices cs = calls 0 cs := by
  obtain ⟨is, hindices, his⟩ := exists_tableIndices_eq
  have hrest : entryCalls t body calls is cs' = [] := by
    clear hindices
    induction is with
    | nil => rfl
    | cons i is ih =>
      rw [entryCalls, h t i (his i List.mem_cons_self)]
      exact ih fun j hj => his j (List.mem_cons_of_mem _ hj)
  rw [hindices, entryCalls, if_pos hp, hbody, hrest, List.append_nil]

/-- Cloning the first page table into an empty PML4 is one call. -/
theorem cloneCalls_twoTablesMachine :
    cloneCalls bumpAllocator higherHalf (higherHalf + 0x1000#64) (higherHalf + 0x8000#64)
        twoTablesMachine
      = [⟨twoTablesMachine.machine, .gb1, 0#64, 0x40000083#64⟩] := by
  have hroot : cloneRoot bumpAllocator higherHalf (higherHalf + 0x8000#64) twoTablesMachine.machine
      = higherHalf + 0x8000#64 := if_neg (by decide)
  have hstart : cloneStart bumpAllocator (higherHalf + 0x8000#64) twoTablesMachine.machine
      = twoTablesMachine.machine := if_neg (by decide)
  have hpdpr : clonePdpr bumpAllocator higherHalf (higherHalf + 0x8000#64)
      (higherHalf + 0x2000#64) twoTablesMachine = cloneLeaf bumpAllocator higherHalf
        (higherHalf + 0x8000#64) .gb1 0x40000083#64 0#64 twoTablesMachine :=
    forPresentEntries_of_onlyFirst rfl rfl onlyFirst_map_twoTablesMachine
  have hread : (twoTablesMachine.machine.mem (higherHalf + 0x1000#64) 0).tableAddress + higherHalf
      = higherHalf + 0x2000#64 := by decide
  have hcalls : pml4Calls bumpAllocator higherHalf (higherHalf + 0x8000#64)
      (higherHalf + 0x1000#64) 0 twoTablesMachine
        = [⟨twoTablesMachine.machine, .gb1, 0#64, 0x40000083#64⟩] := by
    rw [pml4Calls, hread]
    exact entryCalls_of_onlyFirst rfl rfl onlyFirst_map_twoTablesMachine
  rw [cloneCalls, hroot, hstart, if_neg (by decide), ← hcalls]
  exact entryCalls_of_onlyFirst rfl hpdpr onlyFirst_map_twoTablesMachine
