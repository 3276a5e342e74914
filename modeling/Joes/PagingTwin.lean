import Joes.PagingMap

/-!
# Mappings in two memories

Two machines whose memory managers are in the same state, and whose memories
agree on the tables of a page table and on the pages of a set `K` – up to
entries that are not present – stay so when the same page is mapped in both:
`Twin` is the relation, `twin_nextTable` the step of the descent and
`twin_pagingMapPage` the result. What the memories hold elsewhere, in
particular in the pages that are about to be handed out, makes no difference,
because a new table is cleared before an entry of it is read.
-/

open PageTableEntry RadixHeap

variable {σ : Type} {A : PageAllocator σ} {hhdm : BitVec 64} {pml4 : TablePtr} {K : Set TablePtr}
variable {s z : Machine σ} {used : Set TablePtr} {limit : ℕ}

/-- Two entries are the same, or neither is present. -/
def SameEntry (e e' : PageTableEntry) : Prop :=
  e = e' ∨ (e.present = false ∧ e'.present = false)

namespace SameEntry

variable {e e' : PageTableEntry}

theorem refl (e : PageTableEntry) : SameEntry e e := Or.inl rfl

theorem present_eq (h : SameEntry e e') : e.present = e'.present := by
  rcases h with rfl | ⟨h, h'⟩
  · rfl
  · rw [h, h']

theorem eq_of_present (h : SameEntry e e') (hp : e.present = true) : e = e' := by
  rcases h with rfl | ⟨hn, -⟩
  · rfl
  · rw [hn] at hp
    cases hp

theorem entrySlot_eq (h : SameEntry e e') (d : ℕ) : entrySlot hhdm d e' = entrySlot hhdm d e := by
  rcases h with rfl | ⟨hn, hn'⟩
  · rfl
  · rw [entrySlot_of_not_present hn, entrySlot_of_not_present hn']

end SameEntry

/-- **The machines are twins**: their memory managers agree, and so do the
tables of the page table and the pages of `K`. -/
structure Twin (hhdm : BitVec 64) (pml4 : TablePtr) (K : Set TablePtr) (s z : Machine σ) :
    Prop where
  pmm : s.pmm = z.pmm
  entries : ∀ t, t ∈ pageTables hhdm s.mem pml4 ∨ t ∈ K → ∀ i, SameEntry (s.mem t i) (z.mem t i)

theorem Twin.refl (s : Machine σ) : Twin hhdm pml4 K s s := ⟨rfl, fun _ _ _ => SameEntry.refl _⟩

/-- Twins have the same tree. -/
theorem Twin.slotAt_eq (h : Twin hhdm pml4 K s z) :
    slotAt (entrySlot hhdm) z.mem pml4 = slotAt (entrySlot hhdm) s.mem pml4 :=
  slotAt_congr fun _ t ht i => (h.entries t (Or.inl (mem_tables ht)) i).entrySlot_eq _

/-- **The step of a descent.** -/
theorem twin_nextTable (hw : hhdm.toNat + 2 ^ 40 ≤ 2 ^ 64) (h : Twin hhdm pml4 K s z)
    {p : List TableIndex} {t : TablePtr} {i : TableIndex} {level : PageTableLevel}
    (hs : MapState A hhdm pml4 limit used s)
    (hlimit : (nextTable A hhdm level t i s).2.allocs ≤ limit)
    (ht : pageSlot hhdm s.mem pml4 p = .table t) (hd : p.length ≤ 2) (hl : level ≠ .pt) :
    (nextTable A hhdm level t i z).1 = (nextTable A hhdm level t i s).1
      ∧ Twin hhdm pml4 K (nextTable A hhdm level t i s).2 (nextTable A hhdm level t i z).2 := by
  have hsame := h.entries t (Or.inl (mem_tables ht)) i
  by_cases hp : (s.mem t i).present = true
  · rw [nextTable_of_present level hp, nextTable_of_present level (hsame.present_eq ▸ hp),
      hsame.eq_of_present hp]
    exact ⟨rfl, h⟩
  · replace hp : (s.mem t i).present = false := by simpa using hp
    rw [allocs_nextTable_of_free level hp] at hlimit
    obtain ⟨h0, hframe, hnew, -⟩ := hs.next hlimit
    have hptr := add_hhdm_ne_zero hw h0 hframe
    have hnotTable := fun hmem => hnew (hs.tables_used hmem)
    have hslots := slotAt_linkNext (i := i) hs.tree hframe hnotTable ht hd hl <| by
      rw [pageSlot, slotAt_snoc_of_table ht]
      exact entrySlot_of_not_present hp _
    have hne : (A.pmmAlloc s.pmm).1 + hhdm ≠ t := fun heq => hnotTable (heq ▸ mem_tables ht)
    have hptr' := hptr
    rw [h.pmm] at hptr'
    rw [nextTable_of_free level hp hptr,
      nextTable_of_free level (hsame.present_eq ▸ hp) hptr']
    refine ⟨by rw [h.pmm], ?_, ?_⟩
    · show (A.pmmAlloc s.pmm).2 = (A.pmmAlloc z.pmm).2
      rw [h.pmm]
    · intro u hu j
      by_cases hpage : u = (A.pmmAlloc s.pmm).1 + hhdm
      · -- the new page has been cleared in both
        have hz := mem_linkNext_self (A := A) (s := z) (i := i) (j := j) level (h.pmm ▸ hne)
        rw [hpage, mem_linkNext_self level hne, h.pmm, hz]
        exact SameEntry.refl _
      by_cases huj : (u, j) = (t, i)
      · obtain ⟨rfl, rfl⟩ := Prod.mk.inj huj
        rw [linkNext, linkNext, Machine.mem_storeEntry_self, Machine.mem_storeEntry_self, h.pmm]
        exact SameEntry.refl _
      rw [mem_linkNext level hpage huj, mem_linkNext level (h.pmm ▸ hpage) huj]
      rcases hu with hu | hu
      · rcases mem_tables_of_update hslots hu with hu | hu
        · exact h.entries u (Or.inl hu) j
        · exact absurd (Slot.table.inj hu).symm hpage
      · exact h.entries u (Or.inr hu) j

/-- The induction of a descent. -/
theorem twin_nextTables (hw : hhdm.toNat + 2 ^ 40 ≤ 2 ^ 64)
    {steps : List (PageTableLevel × TableIndex)} {p : List TableIndex} {t : TablePtr}
    (h : Twin hhdm pml4 K s z) (hs : MapState A hhdm pml4 limit used s)
    (hlimit : (nextTables A hhdm steps t s).2.allocs ≤ limit)
    (ht : pageSlot hhdm s.mem pml4 p = .table t) (hd : p.length + steps.length ≤ 3)
    (hl : ∀ step ∈ steps, step.1 ≠ .pt)
    (hleaf : ∀ q, q <+: steps.map Prod.snd → (pageSlot hhdm s.mem pml4 (p ++ q)).leaf? = none) :
    (nextTables A hhdm steps t z).1 = (nextTables A hhdm steps t s).1
      ∧ Twin hhdm pml4 K (nextTables A hhdm steps t s).2 (nextTables A hhdm steps t z).2 := by
  induction steps generalizing p t s z used with
  | nil => exact ⟨rfl, h⟩
  | cons step steps ih =>
    obtain ⟨level, i⟩ := step
    rw [List.length_cons] at hd
    have hfirst := allocs_nextTables_cons hlimit
    have hlevel := hl (level, i) List.mem_cons_self
    obtain ⟨u, used₁, s₁, hu, hslot, hlink⟩ := nextTable_spec hw hs hfirst ht (by omega) hlevel
      (hleaf [i] ⟨steps.map Prod.snd, rfl⟩)
    obtain ⟨hres, htwin⟩ := twin_nextTable hw h hs hfirst ht (by omega) hlevel
    unfold nextTables at hlimit ⊢
    rcases hz : nextTable A hhdm level t i z with ⟨r, z₁⟩
    rw [hz, hu] at hres htwin
    obtain rfl : r = some u := hres
    rw [hu] at hlimit ⊢
    refine ih htwin hlink.state hlimit hslot ?_ ?_ ?_
    · rw [List.length_append, List.length_singleton]
      omega
    · exact fun step hmem => hl step (List.mem_cons_of_mem _ hmem)
    · intro q hq
      rw [hlink.leaf?_eq, List.append_assoc]
      exact hleaf (i :: q) (List.cons_prefix_cons.mpr ⟨rfl, hq⟩)

/-- **Mapping a page in both machines**, under no leaf. -/
theorem twin_pagingMapPage (hw : hhdm.toNat + 2 ^ 40 ≤ 2 ^ 64) {size : PageSize}
    {virt phys flags : BitVec 64} (h : Twin hhdm pml4 K s z)
    (hs : MapState A hhdm pml4 limit used s)
    (hlimit : (pagingMapPageWithoutTlbInvalidation A hhdm pml4 phys virt size flags s).2.allocs
      ≤ limit)
    (hf : LeafFlags size flags)
    (habove : ∀ q, q <+: tablePath size virt → (pageSlot hhdm s.mem pml4 q).leaf? = none) :
    Twin hhdm pml4 K (pagingMapPageWithoutTlbInvalidation A hhdm pml4 phys virt size flags s).2
      (pagingMapPageWithoutTlbInvalidation A hhdm pml4 phys virt size flags z).2 := by
  have hroot : pageSlot hhdm s.mem pml4 [] = .table pml4 := rfl
  have hlevels : ∀ step ∈ pageSteps size virt, step.1 ≠ .pt := by cases size <;> simp [pageSteps]
  have hlen : ([] : List TableIndex).length + (pageSteps size virt).length ≤ 3 := by
    cases size <;> simp [pageSteps]
  rw [allocs_pagingMapPage_eq] at hlimit
  obtain ⟨t, used₁, s₁, hdown, ht, hlink⟩ := nextTables_spec hw hs hlimit hroot hlen hlevels habove
  obtain ⟨hres, htwin⟩ := twin_nextTables hw h hs hlimit hroot hlen hlevels habove
  rcases hz : nextTables A hhdm (pageSteps size virt) pml4 z with ⟨r, z₁⟩
  rw [hz, hdown] at hres htwin
  obtain rfl : r = some t := hres
  rw [pagingMapPage_eq_nextTables, pagingMapPage_eq_nextTables, hdown, hz]
  replace ht : pageSlot hhdm s₁.mem pml4 (tablePath size virt) = .table t := ht
  replace htwin : Twin hhdm pml4 K s₁ z₁ := htwin
  have hsame := htwin.entries t (Or.inl (mem_tables ht)) (leafIdx size virt)
  show Twin hhdm pml4 K (mapLeaf size.level t (leafIdx size virt) phys flags s₁).2
    (mapLeaf size.level t (leafIdx size virt) phys flags z₁).2
  unfold mapLeaf
  rw [← hsame.present_eq]
  by_cases hp : (s₁.mem t (leafIdx size virt)).present = true
  · rw [if_pos hp, if_pos hp]
    exact htwin
  · rw [if_neg hp, if_neg hp]
    have hslots := slotAt_storeLeaf phys hlink.state.tree ht hf <| by
      rw [pageSlot, slotAt_snoc_of_table ht]
      exact entrySlot_of_not_present (by simpa using hp) _
    refine ⟨htwin.pmm, fun u hu j => ?_⟩
    by_cases huj : (u, j) = (t, leafIdx size virt)
    · obtain ⟨rfl, rfl⟩ := Prod.mk.inj huj
      rw [Machine.mem_storeEntry_self, Machine.mem_storeEntry_self]
      exact SameEntry.refl _
    · rw [Machine.mem_storeEntry_of_ne huj, Machine.mem_storeEntry_of_ne huj]
      refine htwin.entries u (hu.imp_left fun hu => ?_) j
      exact (mem_tables_of_update hslots hu).resolve_right (by simp)
