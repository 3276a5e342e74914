import Joes.PagingMap

/-!
# What unmapping a page does to the tree

`paging_unmap_page` clears the present bit of the leaf and then looks at the
tables above it, the deepest first: a table without a present entry is unlinked
from its parent and given back. The labels `CHECK_FOR_EMPTY_PD` and
`CHECK_FOR_EMPTY_PDPR` are the entry points for the larger pages.

The invariant this maintains is `NoEmptyTable`: every table but the PML4 holds
something. Clearing a leaf breaks it at one table, the one the leaf was in, and
each check moves the exception one table up – until it has reached the PML4,
where it is none. `Unmapped` is that state of affairs, with the exception as a
parameter, and `Unmapped.check` is the step. Either way it is one present bit
that is cleared, with nothing below it: `Emptied` says what that does to the
tree.
-/

open PageTableEntry RadixHeap

variable {σ : Type} {A : PageAllocator σ} {hhdm : BitVec 64} {pml4 : TablePtr}
variable {s s' s₁ : Machine σ}

/-- **Every table but the PML4 holds something**, with one path excepted. The
PML4 is the empty path, so the exception `[]` is none. -/
def NoEmptyTable (hhdm : BitVec 64) (pml4 : TablePtr) (except : List TableIndex)
    (s : Machine σ) : Prop :=
  ∀ p t, p ≠ [] → p ≠ except → pageSlot hhdm s.mem pml4 p = .table t →
    ∃ i, pageSlot hhdm s.mem pml4 (p ++ [i]) ≠ .empty

/-- `paging_check_for_empty_table` finds a table empty exactly if the tree has
nothing below it. -/
theorem tableEmpty_iff_slots {p : List TableIndex} {t : TablePtr} (hp : p.length ≤ 3)
    (ht : pageSlot hhdm s.mem pml4 p = .table t) :
    tableEmpty t s = true ↔ ∀ i, pageSlot hhdm s.mem pml4 (p ++ [i]) = .empty := by
  rw [tableEmpty_iff]
  refine forall_congr' fun i => ?_
  rw [pageSlot, slotAt_snoc_of_table ht, entrySlot_eq_empty_iff hp]

/-! ## Emptying a slot -/

/-- **The slot `p` has been emptied** by a write to the table `t`. -/
structure Emptied (hhdm : BitVec 64) (pml4 t : TablePtr) (p : List TableIndex)
    (s s' : Machine σ) : Prop where
  tree : Unshared (entrySlot hhdm) s'.mem pml4
  self : pageSlot hhdm s'.mem pml4 p = .empty
  other : ∀ q ≠ p, pageSlot hhdm s'.mem pml4 q = pageSlot hhdm s.mem pml4 q
  frame : ∀ u ≠ t, s'.mem u = s.mem u

namespace Emptied

variable {p q r : List TableIndex} {i : TableIndex} {t u : TablePtr}

/-- Clearing the present bit of an entry empties its slot, if there is nothing
below. -/
theorem of_clear (htree : Unshared (entrySlot hhdm) s.mem pml4)
    (ht : pageSlot hhdm s.mem pml4 r = .table t)
    (hbelow : ∀ j, pageSlot hhdm s.mem pml4 (r ++ [i] ++ [j]) = .empty) :
    Emptied hhdm pml4 t (r ++ [i]) s (s.storeEntry t i (s.mem t i).clearPresent) := by
  set s' := s.storeEntry t i (s.mem t i).clearPresent with hs'
  have hslots : slotAt (entrySlot hhdm) s'.mem pml4
      = Function.update (slotAt (entrySlot hhdm) s.mem pml4) (r ++ [i]) .empty := by
    refine slotAt_write htree ht hbelow (fun q u hu j huj => ?_) ?_ (by simp)
    · rw [hs', Machine.mem_storeEntry_of_ne huj]
    · rw [hs', Machine.mem_storeEntry_self]
      exact entrySlot_of_not_present (present_clearPresent _) _
  refine ⟨htree.update hslots (by simp), ?_, fun q hq => ?_, fun u hu => ?_⟩
  · rw [pageSlot, hslots, Function.update_self]
  · rw [pageSlot, hslots, Function.update_of_ne hq]
  · exact Machine.mem_storeEntry_of_ne_table hu _ _ _

/-- A slot that holds a table is not the emptied one. -/
theorem ne_of_table (h : Emptied hhdm pml4 t p s s')
    (hu : pageSlot hhdm s'.mem pml4 q = .table u) : q ≠ p := by
  rintro rfl
  cases h.self.symm.trans hu

/-- The slots above it are what they were. -/
theorem above (h : Emptied hhdm pml4 t (r ++ [i]) s s') (hq : q <+: r) :
    pageSlot hhdm s'.mem pml4 q = pageSlot hhdm s.mem pml4 q := by
  refine h.other q ?_
  rintro rfl
  have hle := hq.length_le
  rw [List.length_append, List.length_singleton] at hle
  omega

/-- **The exception moves up**: no table has become empty but the one that the
slot is in. -/
theorem noEmptyTable (h : Emptied hhdm pml4 t (r ++ [i]) s s') {x : List TableIndex}
    (hx : x = [] ∨ x = r ++ [i]) (hne : NoEmptyTable hhdm pml4 x s) :
    NoEmptyTable hhdm pml4 r s' := by
  intro q u hq hqr hu
  have hqi := h.ne_of_table hu
  have hqx : q ≠ x := by
    obtain rfl | rfl := hx
    · exact hq
    · exact hqi
  obtain ⟨j, hj⟩ := hne q u hq hqx (h.other q hqi ▸ hu)
  refine ⟨j, ?_⟩
  rw [h.other]
  · exact hj
  · intro heq
    exact hqr (List.append_inj' heq rfl).1

end Emptied

/-! ## Unmapping a leaf -/

/-- **The leaf `p` is gone, and the tables below the path `r` are in order**:
what is left to check are the table at `r` and those above it, which are still
in place. -/
structure Unmapped (hhdm : BitVec 64) (pml4 : TablePtr) (p r : List TableIndex)
    (s s' : Machine σ) : Prop where
  tree : Unshared (entrySlot hhdm) s'.mem pml4
  nonempty : NoEmptyTable hhdm pml4 r s'
  /-- The other leaves are what they were. -/
  leaves : ∀ q, (pageSlot hhdm s'.mem pml4 q).leaf?
    = if q = p then none else (pageSlot hhdm s.mem pml4 q).leaf?
  /-- No table is new. -/
  tables : ∀ q t, pageSlot hhdm s'.mem pml4 q = .table t → pageSlot hhdm s.mem pml4 q = .table t
  /-- The tables down to `r` are in place. -/
  above : ∀ q, q <+: r → pageSlot hhdm s'.mem pml4 q = pageSlot hhdm s.mem pml4 q
  /-- Only tables were written. -/
  frame : ∀ t ∉ pageTables hhdm s.mem pml4, s'.mem t = s.mem t

/-- **Clearing a leaf** leaves the table it was in as the exception. -/
theorem Unmapped.clear {r : List TableIndex} {i : TableIndex} {t : TablePtr} {e : PageTableEntry}
    (htree : Unshared (entrySlot hhdm) s.mem pml4) (hne : NoEmptyTable hhdm pml4 [] s)
    (ht : pageSlot hhdm s.mem pml4 r = .table t)
    (he : pageSlot hhdm s.mem pml4 (r ++ [i]) = .leaf e) :
    Unmapped hhdm pml4 (r ++ [i]) r s (s.storeEntry t i (s.mem t i).clearPresent) := by
  have hbelow : ∀ j, pageSlot hhdm s.mem pml4 (r ++ [i] ++ [j]) = .empty := fun j =>
    slotAt_append_of_not_table (by simp) fun u hu => by cases he.symm.trans hu
  have h := Emptied.of_clear htree ht hbelow
  refine ⟨h.tree, h.noEmptyTable (Or.inl rfl) hne, fun q => ?_, fun q u hu => ?_,
    fun q => h.above, fun u hu => ?_⟩
  · by_cases hq : q = r ++ [i]
    · rw [if_pos hq, hq, h.self]
      rfl
    · rw [if_neg hq, h.other q hq]
  · exact h.other q (h.ne_of_table hu) ▸ hu
  · exact h.frame u fun heq => hu (heq ▸ mem_tables ht)

/-- **Unlinking an empty table** moves the exception to the table it was linked
in. -/
theorem Unmapped.unlink {p r : List TableIndex} {i : TableIndex} {t c : TablePtr}
    (h : Unmapped hhdm pml4 p (r ++ [i]) s s₁) (ht : pageSlot hhdm s.mem pml4 r = .table t)
    (hc : pageSlot hhdm s₁.mem pml4 (r ++ [i]) = .table c)
    (he : Emptied hhdm pml4 t (r ++ [i]) s₁ s') : Unmapped hhdm pml4 p r s s' := by
  refine ⟨he.tree, he.noEmptyTable (Or.inr rfl) h.nonempty, fun q => ?_, fun q u hu => ?_,
    fun q hq => ?_, fun u hu => ?_⟩
  · by_cases hq : q = r ++ [i]
    · have hl := h.leaves q
      rw [hq, hc] at hl
      rw [hq, he.self, ← hl]
      rfl
    · rw [he.other q hq]
      exact h.leaves q
  · exact h.tables q u (he.other q (he.ne_of_table hu) ▸ hu)
  · rw [he.above hq, h.above q (hq.trans (List.prefix_append _ _))]
  · rw [he.frame u fun heq => hu (heq ▸ mem_tables ht), h.frame u hu]

/-- **The step**: checking the table at `r ++ [i]` moves the exception to
`r`. -/
theorem Unmapped.check {p r : List TableIndex} {i : TableIndex} {t c : TablePtr}
    (h : Unmapped hhdm pml4 p (r ++ [i]) s s₁) (hd : r.length ≤ 2)
    (ht : pageSlot hhdm s.mem pml4 r = .table t)
    (hc : pageSlot hhdm s.mem pml4 (r ++ [i]) = .table c) :
    Unmapped hhdm pml4 p r s (pagingCheckForEmptyTable A hhdm c t i s₁) := by
  have ht₁ : pageSlot hhdm s₁.mem pml4 r = .table t := by
    rw [h.above r (List.prefix_append _ _), ht]
  have hc₁ : pageSlot hhdm s₁.mem pml4 (r ++ [i]) = .table c := by
    rw [h.above _ List.prefix_rfl, hc]
  have hempty := tableEmpty_iff_slots (by rw [List.length_append, List.length_singleton]; omega) hc₁
  unfold pagingCheckForEmptyTable
  by_cases he : tableEmpty c s₁ = true
  · -- the table is unlinked and given back, which does not touch the memory
    rw [if_pos he]
    have hclear := Emptied.of_clear h.tree ht₁ (hempty.mp he)
    exact h.unlink ht hc₁ ⟨hclear.tree, hclear.self, hclear.other, hclear.frame⟩
  · -- the table holds something, so it was no exception
    rw [if_neg he]
    refine ⟨h.tree, ?_, h.leaves, h.tables, fun q hq => h.above q (hq.trans
      (List.prefix_append _ _)), h.frame⟩
    intro q u hq _ hu
    by_cases hqr : q = r ++ [i]
    · subst hqr
      by_contra hno
      refine he (hempty.mpr fun j => ?_)
      by_contra hj
      exact hno ⟨j, hj⟩
    · exact h.nonempty q u hq hqr hu

/-- **Unmapping as a walk up the tree.** What holds for the table of the leaf
once its bit is cleared, and is carried from a table to the one above it by the
check, holds for the PML4 in the end. -/
theorem pagingUnmapPage_induction {size : PageSize} {virt : BitVec 64} {e : PageTableEntry}
    (h : pageSlot hhdm s.mem pml4 (pagePath size virt) = .leaf e)
    {P : List TableIndex → Machine σ → Prop}
    (hclear : ∀ r i t, pagePath size virt = r ++ [i] → pageSlot hhdm s.mem pml4 r = .table t →
      P r (s.storeEntry t i (s.mem t i).clearPresent))
    (hcheck : ∀ r i t c s₁, r.length ≤ 2 → pageSlot hhdm s.mem pml4 r = .table t →
      pageSlot hhdm s.mem pml4 (r ++ [i]) = .table c → P (r ++ [i]) s₁ →
      P r (pagingCheckForEmptyTable A hhdm c t i s₁)) :
    ∃ s', pagingUnmapPage A hhdm pml4 virt size s = (.ok, s') ∧ P [] s' := by
  have hroot : pageSlot hhdm s.mem pml4 [] = .table pml4 := rfl
  unfold pagingUnmapPage
  cases size with
  | gb1 =>
    obtain ⟨pdpr, hpdpr, -, -, hp₁, -, rfl⟩ := entry_of_pageSlot_leaf (p := [_]) h
    obtain ⟨hp₀, ha₀⟩ := entry_of_pageSlot_pdpr hpdpr
    simp only [hp₀, ha₀, hp₁, Bool.true_eq_false, if_false, if_true]
    refine ⟨_, rfl, ?_⟩
    exact hcheck [] _ _ _ _ (by decide) hroot hpdpr (hclear [_] _ _ rfl hpdpr)
  | mb2 =>
    obtain ⟨pd, hpd, -, -, hp₂, -, rfl⟩ := entry_of_pageSlot_leaf (p := [_, _]) h
    obtain ⟨pdpr, hpdpr, -, hp₁, -, ha₁⟩ := entry_of_pageSlot_table (p := [_]) hpd
    obtain ⟨hp₀, ha₀⟩ := entry_of_pageSlot_pdpr hpdpr
    simp only [hp₀, ha₀, hp₁, ha₁, hp₂, Bool.true_eq_false, if_false, if_true, reduceCtorEq]
    refine ⟨_, rfl, ?_⟩
    unfold checkForEmptyPd checkForEmptyPdpr
    have hpd' := hcheck [_] _ _ _ _ (by simp) hpdpr hpd (hclear [_, _] _ _ rfl hpd)
    exact hcheck [] _ _ _ _ (by decide) hroot hpdpr hpd'
  | kb4 =>
    obtain ⟨pt, hpt, -, -, -, -, rfl⟩ := entry_of_pageSlot_leaf (p := [_, _, _]) h
    obtain ⟨pd, hpd, -, hp₂, -, ha₂⟩ := entry_of_pageSlot_table (p := [_, _]) hpt
    obtain ⟨pdpr, hpdpr, -, hp₁, -, ha₁⟩ := entry_of_pageSlot_table (p := [_]) hpd
    obtain ⟨hp₀, ha₀⟩ := entry_of_pageSlot_pdpr hpdpr
    simp only [hp₀, ha₀, hp₁, ha₁, hp₂, ha₂, Bool.true_eq_false, if_false, reduceCtorEq]
    refine ⟨_, rfl, ?_⟩
    unfold checkForEmptyPd checkForEmptyPdpr
    have hpt' := hcheck [_, _] _ _ _ _ (by simp) hpd hpt (hclear [_, _, _] _ _ rfl hpt)
    have hpd' := hcheck [_] _ _ _ _ (by simp) hpdpr hpd hpt'
    exact hcheck [] _ _ _ _ (by decide) hroot hpdpr hpd'

/-- **Unmapping a leaf** takes it out of the tree and leaves no empty table
behind. -/
theorem pagingUnmapPage_of_leaf {size : PageSize} {virt : BitVec 64} {e : PageTableEntry}
    (htree : Unshared (entrySlot hhdm) s.mem pml4) (hne : NoEmptyTable hhdm pml4 [] s)
    (h : pageSlot hhdm s.mem pml4 (pagePath size virt) = .leaf e) :
    ∃ s', pagingUnmapPage A hhdm pml4 virt size s = (.ok, s')
      ∧ Unmapped hhdm pml4 (pagePath size virt) [] s s' := by
  refine pagingUnmapPage_induction (P := fun r s' => Unmapped hhdm pml4 (pagePath size virt) r s s')
    h (fun r i t hpath ht => ?_) fun r i t c s₁ hd ht hc h₁ => h₁.check hd ht hc
  rw [hpath] at h ⊢
  exact Unmapped.clear htree hne ht h

/-- A table that holds something is left alone by its check. -/
theorem pagingCheckForEmptyTable_of_nonempty {p : List TableIndex} {c : TablePtr}
    (hp : p.length ≤ 3) (hne : NoEmptyTable hhdm pml4 [] s) (hp0 : p ≠ [])
    (hc : pageSlot hhdm s.mem pml4 p = .table c) (t : TablePtr) (i : TableIndex) :
    pagingCheckForEmptyTable A hhdm c t i s = s := by
  obtain ⟨j, hj⟩ := hne p c hp0 hp0 hc
  rw [pagingCheckForEmptyTable, if_neg]
  exact fun he => hj ((tableEmpty_iff_slots hp hc).mp he j)

/-- Storing what is there leaves memory as it is. -/
theorem mem_storeEntry_eq_self {t : TablePtr} {i : TableIndex} {e : PageTableEntry}
    (h : e = s.mem t i) : (s.storeEntry t i e).mem = s.mem := by
  rw [h, Machine.storeEntry, Function.update_eq_self, Function.update_eq_self]

/-- **Unmapping what is not mapped**, under no leaf: nothing is written, or an
entry with what it holds. -/
theorem pagingUnmapPage_of_free_cases {size : PageSize} {virt : BitVec 64}
    (hne : NoEmptyTable hhdm pml4 [] s)
    (habove : ∀ q, q <+: tablePath size virt → (pageSlot hhdm s.mem pml4 q).leaf? = none)
    (h : pageSlot hhdm s.mem pml4 (pagePath size virt) = .empty) :
    (pagingUnmapPage A hhdm pml4 virt size s).2 = s ∨
      ∃ t i, (pagingUnmapPage A hhdm pml4 virt size s).2 = s.storeEntry t i (s.mem t i) := by
  have hroot : pageSlot hhdm s.mem pml4 [] = .table pml4 := rfl
  have hnoleaf : ∀ q e, q <+: tablePath size virt → pageSlot hhdm s.mem pml4 q ≠ .leaf e := by
    intro q e hq he
    have hnone := habove q hq
    rw [he] at hnone
    cases hnone
  unfold pagingUnmapPage
  rcases pageSlot_snoc_cases (by decide) hroot (pml4Idx virt) with
    ⟨-, hp₀⟩ | ⟨-, h₀, hp₀, -⟩ | ⟨hd, -⟩
  · simp [hp₀]
  · rcases pageSlot_snoc_cases (by simp) h₀ (pdprIdx virt) with
      ⟨-, hp₁⟩ | ⟨-, h₁, hp₁, -⟩ | ⟨-, h₁, -⟩
    · simp [hp₀, hp₁]
    · rcases pageSlot_snoc_cases (by simp) h₁ (pdIdx virt) with
        ⟨-, hp₂⟩ | ⟨-, h₂, hp₂, -⟩ | ⟨-, h₂, -⟩
      · cases size with
        | gb1 => cases h₁.symm.trans h
        | mb2 => simp [hp₀, hp₁, hp₂]
        | kb4 => simp [hp₀, hp₁, hp₂]
      · cases size with
        | gb1 => cases h₁.symm.trans h
        | mb2 => cases h₂.symm.trans h
        | kb4 =>
          -- the bit cleared was clear, and the three tables hold something
          have hp₃ := not_present_of_pageSlot_empty (by simp) h₂ h
          simp only [hp₀, hp₁, hp₂, Bool.true_eq_false, if_false, reduceCtorEq,
            clearPresent_of_not_present hp₃]
          unfold checkForEmptyPd checkForEmptyPdpr
          set s₁ := s.storeEntry _ _ _ with hs₁
          have hmem : s₁.mem = s.mem := mem_storeEntry_eq_self rfl
          have hne₁ : NoEmptyTable hhdm pml4 [] s₁ := by
            unfold NoEmptyTable
            rw [hmem]
            exact hne
          have hslot : ∀ q, pageSlot hhdm s₁.mem pml4 q = pageSlot hhdm s.mem pml4 q := by
            intro q
            rw [hmem]
          rw [pagingCheckForEmptyTable_of_nonempty (by simp) hne₁ (by simp) ((hslot _).trans h₂),
            pagingCheckForEmptyTable_of_nonempty (by simp) hne₁ (by simp) ((hslot _).trans h₁),
            pagingCheckForEmptyTable_of_nonempty (by simp) hne₁ (by simp) ((hslot _).trans h₀)]
          exact Or.inr ⟨_, _, hs₁⟩
      · cases size with
        | gb1 => cases h₁.symm.trans h
        | mb2 => cases h₂.symm.trans h
        | kb4 => exact absurd h₂ (hnoleaf _ _ List.prefix_rfl)
    · cases size with
      | gb1 => cases h₁.symm.trans h
      | mb2 => exact absurd h₁ (hnoleaf _ _ List.prefix_rfl)
      | kb4 => exact absurd h₁ (hnoleaf _ _ ⟨[_], rfl⟩)
  · simp at hd

/-- Memory and memory manager are unchanged. -/
theorem pagingUnmapPage_of_free {size : PageSize} {virt : BitVec 64}
    (hne : NoEmptyTable hhdm pml4 [] s)
    (habove : ∀ q, q <+: tablePath size virt → (pageSlot hhdm s.mem pml4 q).leaf? = none)
    (h : pageSlot hhdm s.mem pml4 (pagePath size virt) = .empty) :
    (pagingUnmapPage A hhdm pml4 virt size s).2.mem = s.mem
      ∧ (pagingUnmapPage A hhdm pml4 virt size s).2.pmm = s.pmm := by
  rcases pagingUnmapPage_of_free_cases (A := A) hne habove h with hrun | ⟨t, i, hrun⟩
  · rw [hrun]
    exact ⟨rfl, rfl⟩
  · rw [hrun]
    exact ⟨mem_storeEntry_eq_self rfl, rfl⟩
