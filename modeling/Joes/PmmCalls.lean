import Joes.PmmInit
import Joes.PmmSearch
import Joes.CallRun

/-!
# Calls that keep the guard

A call of `pmm_alloc` sets one bit at most, and a call of `pmm_free` clears one
bit at most. So the guard over the pages that must not be handed out
(`Guarded`) is kept by every `pmm_alloc` that stops at a page, and by every
`pmm_free` of an address in a page that is not guarded. What `pmm_alloc`
returns is then a page of usable memory, and not one of the required pages
(`Guarded.pmmAlloc`).
-/

/-- A call of the memory manager. -/
inductive PmmCall where
  /-- `pmm_alloc()` -/
  | alloc
  /-- `pmm_free(ptr)` -/
  | free (ptr : ℕ)
  deriving DecidableEq, Repr

/-- The state after a call; `none` where `pmm_free` is undefined. -/
def Pmm.call (p : Pmm) : PmmCall → Option Pmm
  | .alloc => some (pmmAlloc p).2
  | .free ptr => (pmmFree p ptr).map Prod.snd

namespace Memmap

/-- A page of usable memory that does not hold the manager's data. -/
structure IsFreePage (m : Memmap) (i k : ℕ) : Prop where
  /-- The entry exists. -/
  lt : i < m.entryCount
  /-- Its memory is usable. -/
  usable : (m.entries i).type = .usable
  /-- The page is one of it. -/
  page_lt : k < m.pages i
  /-- It is not one of the required pages. -/
  not_required : ¬ (i = m.dataEntry ∧ k < m.requiredPages)

/-- A page that is not required has another address than the required ones. -/
theorem IsFreePage.pageAddress_ne {m : Memmap} {i k : ℕ} (h : m.IsFreePage i k)
    (hd : m.HoldsData m.dataEntry) {l : ℕ} (hl : l < m.requiredPages) :
    m.pageAddress i k ≠ m.dataBase + l * 4096 := by
  intro heq
  have hl' : l < m.pages m.dataEntry := lt_of_lt_of_le hl hd.requiredPages_le
  obtain ⟨rfl, rfl⟩ := m.pageAddress_inj h.lt hd.lt h.page_lt hl' heq
  exact h.not_required ⟨rfl, hl⟩

end Memmap

/-! ## The effect of `pmm_free` on the bitmaps -/

/-- **A call of `pmm_free` for an address in a page** clears the bit of that
page in the memory, or has no effect. -/
theorem HasLayout.pmmFree_clears {m : Memmap} {p : Pmm} (h : HasLayout m p) {a i k : ℕ}
    (hi : i < m.entryCount) (hk : k < m.pages i) (ha : m.pageAddress i k ≤ a)
    (ha' : a < m.pageAddress i k + 4096) :
    ∃ q, pmmFree p a = some (.ok, q) ∧ (q = p ∨
      ∃ j f, q = p.withFreePages j f (Bitmap.clearBit p.mem (p.regions i).bitmap k)) := by
  obtain hfree | ⟨j, hji, hbase, hlength, hfree | ⟨hbase', rfl, hfree⟩⟩ :=
    h.pmmFree_of_mem hi hk ha ha'
  · exact ⟨_, hfree, Or.inr ⟨i, _, rfl⟩⟩
  · exact ⟨p, hfree, Or.inl rfl⟩
  · -- the bitmap of the empty region at the address 0 starts where the right one does
    have hbitmap : (p.regions j).bitmap = (p.regions i).bitmap := by
      rw [h.bitmap_eq j (lt_trans hji hi), h.bitmap_eq i hi,
        Memmap.bitmapOffset_eq_of_base_eq hji.le hi (hbase.trans hbase'.symm)]
    refine ⟨_, hfree, Or.inr ⟨j, ((p.regions j).freePages + 1) % 2 ^ 64, ?_⟩⟩
    rw [← hbitmap]
    rfl

/-! ## The guard -/

namespace Guarded

variable {m : Memmap} {p : Pmm}

theorem withCaches (h : Guarded m p) (rc bc : ℕ) : Guarded m (p.withCaches rc bc) :=
  ⟨h.toHasLayout.withCaches rc bc, h.regionsPtr_eq, h.bitAt_required, h.bitmapByte_unusable⟩

/-- A page whose bit is clear is not guarded. -/
theorem isFreePage (h : Guarded m p) {i k : ℕ} (hi : i < m.entryCount) (hk : k < m.pages i)
    (hbyte : k / 8 < (p.regions i).bitmapSize) (hclear : p.pageBit i k = false) :
    m.IsFreePage i k := by
  refine ⟨hi, ?_, hk, ?_⟩
  · by_contra hu
    have hfull := h.bitmapByte_unusable i hi hu (k / 8) hbyte
    have hset := (Bitmap.eq_allOnes_iff _).mp hfull (k % 8) (Nat.mod_lt k (by norm_num))
    exact Bool.false_ne_true (hclear.symm.trans hset)
  · rintro ⟨rfl, hlt⟩
    have hset := h.bitAt_required k hlt hbyte
    rw [hclear] at hset
    exact Bool.false_ne_true hset

/-- Marking a page as used keeps the guard. -/
theorem withPageUsed (h : Guarded m p) (i k : ℕ) : Guarded m (p.withPageUsed i k) := by
  refine ⟨h.toHasLayout.withFreePages _ _ _, h.regionsPtr_eq, fun l hl hbyte => ?_,
    fun j hj hu b hb => ?_⟩
  · unfold Pmm.withPageUsed at hbyte ⊢
    rw [Pmm.bitmapSize_withFreePages] at hbyte
    rw [Pmm.pageBit_withFreePages]
    exact Bitmap.bitAt_setBit_mono (h.bitAt_required l hl hbyte)
  · unfold Pmm.withPageUsed at hb ⊢
    rw [Pmm.bitmapSize_withFreePages] at hb
    rw [Pmm.bitmapByte_withFreePages]
    exact Bitmap.byteAt_setBit_allOnes (h.bitmapByte_unusable j hj hu b hb)

/-- **Clearing the bit of a page that is not guarded keeps the guard.** -/
theorem clearBit (h : Guarded m p) (hd : m.HoldsData m.dataEntry) {i k : ℕ}
    (hfree : m.IsFreePage i k) (hbyte : k / 8 < (p.regions i).bitmapSize) (j f : ℕ) :
    Guarded m (p.withFreePages j f (Bitmap.clearBit p.mem (p.regions i).bitmap k)) := by
  refine ⟨h.toHasLayout.withFreePages _ _ _, h.regionsPtr_eq, fun l hl hl8 => ?_,
    fun i' hi' hu b hb => ?_⟩
  · rw [Pmm.bitmapSize_withFreePages] at hl8
    rw [Pmm.pageBit_withFreePages, Bitmap.bitAt_clearBit_of_ne]
    · exact h.bitAt_required l hl hl8
    · exact h.bitNe hfree.lt hd.lt (fun e => hfree.not_required ⟨e.1.symm, e.2 ▸ hl⟩) hbyte hl8
  · rw [Pmm.bitmapSize_withFreePages] at hb
    have hne : i' ≠ i := fun e => hu (e ▸ hfree.usable)
    rw [Pmm.bitmapByte_withFreePages,
      Bitmap.byteAt_clearBit_of_ne (h.byteAddress_ne hi' hfree.lt hne hb hbyte)]
    exact h.bitmapByte_unusable i' hi' hu b hb

/-- **A call of `pmm_alloc` that stops at a page** returns a free page whose
bit was clear and sets that bit, or returns `NULL`. -/
theorem pmmAlloc_cases (h : Guarded m p) (hs : p.StopsAtPage) :
    (∃ rc bc, pmmAlloc p = (0, p.withCaches rc bc)) ∨
    ∃ i k rc bc, m.IsFreePage i k ∧ k / 8 < (p.regions i).bitmapSize ∧ p.pageBit i k = false
      ∧ pmmAlloc p = (m.pageAddress i k, (p.withCaches rc bc).withPageUsed i k) := by
  obtain hnull | ⟨i, k, rc, bc, hi, hk, hbyte, hclear, halloc⟩ :=
    h.toHasLayout.pmmAlloc_of_stopsAtPage hs
  · exact Or.inl hnull
  · exact Or.inr ⟨i, k, rc, bc, h.isFreePage hi hk hbyte hclear, hbyte, hclear, halloc⟩

/-- A call of `pmm_alloc` that stops at a page keeps the guard. -/
theorem pmmAlloc (h : Guarded m p) (hs : p.StopsAtPage) : Guarded m (pmmAlloc p).2 := by
  obtain ⟨rc, bc, halloc⟩ | ⟨i, k, rc, bc, -, -, -, halloc⟩ := h.pmmAlloc_cases hs
  · rw [halloc]
    exact h.withCaches rc bc
  · rw [halloc]
    exact (h.withCaches rc bc).withPageUsed i k

end Guarded
