import Joes.PmmLayout

/-!
# The state after initialization

What `pmm_init` leaves behind when it returns `PMM_OK` (`pmmInit_ok`): the
regions are those of the memory map, with every bit of a usable region clear
and every bit of another one set (`RegionsReady`), and on top of that the bits
of the required pages are set in the region that holds the data.

The region whose pages are marked is looked up by its base. That is the region
of the data unless entries of length zero with the same base come before it.
Such an entry has an empty bitmap, which starts where that of the data's region
does, so the bits are set in the right place even then
(`bitmapOffset_eq_of_base_eq`) – but the counter that goes down is the wrong
one.
-/

namespace Memmap

variable (m : Memmap)

/-- The entry that the manager's data is stored in. -/
def dataEntry : ℕ := (findPmmEntry m.toLimineMemmapResponse m.requiredPages).getD 0

/-- The physical address of the manager's data. -/
def dataBase : ℕ := (m.entries m.dataEntry).base

/-- The entry has room for the manager's data, and it is usable memory. -/
structure HoldsData (d : ℕ) : Prop where
  /-- It is an entry. -/
  lt : d < m.entryCount
  /-- Its memory is usable. -/
  usable : (m.entries d).type = .usable
  /-- It is long enough. -/
  fits : m.requiredPages * 4096 ≤ (m.entries d).length
  /-- It does not start at the address 0. -/
  base_ne_zero : (m.entries d).base ≠ 0

variable {m}

theorem HoldsData.requiredPages_le {d : ℕ} (h : m.HoldsData d) : m.requiredPages ≤ m.pages d := by
  have := h.fits
  unfold pages
  omega

theorem HoldsData.end_lt {d : ℕ} (h : m.HoldsData d) :
    (m.entries d).base + m.requiredPages * 4096 < 2 ^ 64 := by
  have := m.bounded d h.lt
  have := h.fits
  omega

/-- **Entries of length zero take no bitmap**: of two entries with one base,
the bitmaps start at one address. -/
theorem bitmapOffset_eq_of_base_eq {f d : ℕ} (hfd : f ≤ d) (hd : d < m.entryCount)
    (h : (m.entries f).base = (m.entries d).base) : m.bitmapOffset f = m.bitmapOffset d := by
  induction d with
  | zero => rw [Nat.le_zero.mp hfd]
  | succ d ih =>
    obtain heq | hlt := Nat.eq_or_lt_of_le hfd
    · rw [heq]
    · have hstep := m.sorted d (d + 1) (Nat.lt_succ_self d) hd
      have hprev : (m.entries f).base ≤ (m.entries d).base := by
        obtain heq | hlt' := Nat.eq_or_lt_of_le (Nat.le_of_lt_succ hlt)
        · rw [heq]
        · exact le_trans (Nat.le_add_right _ _) (m.sorted f d hlt' (by omega))
      have hzero : (m.entries d).length = 0 := by omega
      rw [bitmapOffset_succ, hzero, regionBitmapSize_zero, Nat.add_zero]
      exact ih (by omega) (by omega) (by omega)

end Memmap

/-! ## The regions -/

/-- Every region of the map is set up, and no page is marked. -/
structure RegionsReady (m : Memmap) (p : Pmm) : Prop extends HasLayout m p where
  /-- The pages of usable memory are counted as free. -/
  freePages_eq : ∀ i < m.entryCount, (p.regions i).freePages
    = if (m.entries i).type = .usable then regionPages (m.entries i).length else 0
  /-- The bits of usable memory are clear, and the others are set. -/
  bitmapByte_eq : ∀ i < m.entryCount, ∀ b < (p.regions i).bitmapSize,
    p.bitmapByte i b = if (m.entries i).type = .usable then 0#8 else uint8Max

theorem physToVirt_add (base b : ℕ) (offset : BitVec 64) :
    physToVirt ((base + b) % 2 ^ 64) offset = Bitmap.byteAddress (physToVirt base offset) b := by
  unfold physToVirt Bitmap.byteAddress
  rw [BitVec.add_assoc, BitVec.add_comm offset, ← BitVec.add_assoc, ← BitVec.ofNat_add]
  congr 1
  apply BitVec.eq_of_toNat_eq
  simp

/-- A pointer into the direct map, as a physical address. -/
theorem physToVirt_sub {base : ℕ} (h : base < 2 ^ 64) (offset : BitVec 64) :
    (physToVirt base offset - offset).toNat = base := by
  unfold physToVirt
  rw [BitVec.add_sub_cancel, BitVec.toNat_ofNat, Nat.mod_eq_of_lt h]

namespace Pmm

section InitRegions

variable (m : Memmap) (offset : BitVec 64) (p : Pmm) (base : ℕ)

/-- What the loop over the entries has done after `t` rounds. -/
structure InitRegionsAt (t : ℕ) (s : Pmm × ℕ) : Prop where
  /-- The loop assigns to the array and to the memory only. -/
  frame : s.1 = { p with regions := s.1.regions, mem := s.1.mem }
  /-- The next bitmap lies behind those of the entries so far. -/
  next_eq : s.2 = (base + (m.regionArraySize + m.bitmapOffset t)) % 2 ^ 64
  /-- The regions so far. -/
  regions_eq : ∀ i < t, s.1.regions i =
    { bitmap := Bitmap.byteAddress (physToVirt base offset)
        (m.regionArraySize + m.bitmapOffset i)
      bitmapSize := regionBitmapSize (m.entries i).length
      base := (m.entries i).base
      length := (m.entries i).length
      freePages := if (m.entries i).type = .usable then regionPages (m.entries i).length else 0
      type := (m.entries i).type }
  /-- The bitmaps so far. -/
  bytes_eq : ∀ i < t, ∀ b < regionBitmapSize (m.entries i).length,
    Bitmap.byteAt s.1.mem (physToVirt base offset)
      (m.regionArraySize + m.bitmapOffset i + b)
      = if (m.entries i).type = .usable then 0#8 else uint8Max

/-- **One round sets up one region**, and the bitmap it fills lies behind all
that were filled before. -/
theorem initRegionsAt_succ {t : ℕ} (ht : t < m.entryCount) {s : Pmm × ℕ}
    (h : InitRegionsAt m offset p base t s) :
    InitRegionsAt m offset p base (t + 1)
      (let e := m.entries t
       let init := pmmRegionInit s.1.mem (physToVirt s.2 offset) e.base e.length e.type
       (s.1.withRegion t init.1 init.2, (s.2 + init.1.bitmapSize) % 2 ^ 64)) := by
  have hptr : physToVirt s.2 offset
      = Bitmap.byteAddress (physToVirt base offset) (m.regionArraySize + m.bitmapOffset t) := by
    rw [h.next_eq, physToVirt_add]
  have htotal := m.metadataSize_lt
  have hend : m.bitmapOffset (t + 1) ≤ m.bitmapOffset m.entryCount := m.bitmapOffset_mono ht
  rw [m.bitmapOffset_succ] at hend
  dsimp only
  rw [pmmRegionInit_eq, hptr]
  dsimp only
  constructor
  · rw [h.frame]
    rfl
  · rw [h.next_eq, m.bitmapOffset_succ, Nat.mod_add_mod]
    omega
  · intro i hi
    obtain hlt | rfl := Nat.lt_succ_iff_lt_or_eq.mp hi
    · rw [← h.regions_eq i hlt]
      exact Function.update_of_ne hlt.ne _ _
    · exact Function.update_self _ _ _
  · intro i hi b hb
    show Bitmap.byteAt (Bitmap.fill s.1.mem _ _ _) _ _ = _
    obtain hlt | rfl := Nat.lt_succ_iff_lt_or_eq.mp hi
    · rw [← h.bytes_eq i hlt b hb]
      apply Bitmap.byteAt_fill_of_ne
      intro c hc
      have hi' : m.bitmapOffset (i + 1) ≤ m.bitmapOffset t := m.bitmapOffset_mono hlt
      rw [m.bitmapOffset_succ] at hi'
      rw [Bitmap.byteAddress_byteAddress, Ne, Bitmap.byteAddress_inj (by omega) (by omega)]
      omega
    · have hfill := @Bitmap.byteAt_fill s.1.mem
        (Bitmap.byteAddress (physToVirt base offset) (m.regionArraySize + m.bitmapOffset i))
        (if (m.entries i).type = .usable then 0#8 else uint8Max) b _ hb (by omega)
      unfold Bitmap.byteAt at hfill ⊢
      rwa [Bitmap.byteAddress_byteAddress] at hfill

/-- The loop over the entries. -/
theorem initRegionsAt_initRegions {t : ℕ} (ht : t ≤ m.entryCount) :
    InitRegionsAt m offset p base t
      (initRegions m.toLimineMemmapResponse offset p
        ((base + m.regionArraySize) % 2 ^ 64) t) := by
  induction t with
  | zero =>
    exact ⟨rfl, rfl, fun i hi => absurd hi (Nat.not_lt_zero i),
      fun i hi => absurd hi (Nat.not_lt_zero i)⟩
  | succ t ih => exact initRegionsAt_succ m offset p base ht (ih (by omega))

end InitRegions

/-- **The loop over the entries makes the regions ready.** -/
theorem regionsReady_initRegions (m : Memmap) (offset : BitVec 64) (p : Pmm) (base : ℕ)
    (hn : p.numRegions = m.entryCount) (hptr : p.regionsPtr = physToVirt base offset) :
    RegionsReady m (initRegions m.toLimineMemmapResponse offset p
      ((base + m.regionArraySize) % 2 ^ 64) m.entryCount).1 := by
  have h := initRegionsAt_initRegions m offset p base le_rfl
  generalize initRegions m.toLimineMemmapResponse offset p
    ((base + m.regionArraySize) % 2 ^ 64) m.entryCount = s at h ⊢
  have hptr' : s.1.regionsPtr = physToVirt base offset := by
    rw [h.frame]
    exact hptr
  constructor
  · constructor
    · rw [h.frame]
      exact hn
    all_goals
      intro i hi
      rw [h.regions_eq i hi]
    rw [hptr']
  · intro i hi
    rw [h.regions_eq i hi]
  · intro i hi b hb
    rw [h.regions_eq i hi] at hb
    rw [← h.bytes_eq i hi b hb, bitmapByte, h.regions_eq i hi]
    unfold Bitmap.byteAt
    rw [Bitmap.byteAddress_byteAddress]

/-! ## The required pages -/

/-- A counter after `t` pages were marked as used. -/
def countDown (freePages : ℕ) : ℕ → ℕ
  | 0 => freePages
  | t + 1 => (countDown freePages t + 2 ^ 64 - 1) % 2 ^ 64

theorem countDown_eq {freePages t : ℕ} (h : t ≤ freePages) (hf : freePages < 2 ^ 64) :
    countDown freePages t = freePages - t := by
  induction t with
  | zero => rfl
  | succ t ih =>
    rw [countDown, ih (by omega)]
    omega

/-- The state after the first `t` pages of region `i` were marked as used. -/
def withMarked (p : Pmm) (i t : ℕ) : Pmm :=
  p.withFreePages i (countDown (p.regions i).freePages t)
    (Bitmap.setBits p.mem (p.regions i).bitmap t)

theorem withMarked_region (p : Pmm) (i t : ℕ) : (p.withMarked i t).regions i
    = { p.regions i with freePages := countDown (p.regions i).freePages t } :=
  Function.update_self _ _ _

/-- A loop without an error so far and in its last round. -/
theorem markRequiredPages_succ_eq_ok {i t : ℕ} {offset : BitVec 64} {p p' : Pmm}
    (h : markRequiredPages i offset p (t + 1) = (.ok, p')) :
    ∃ q, markRequiredPages i offset p t = (.ok, q)
      ∧ q.markPageUsed i (((q.regionsPtr - offset).toNat + t * 4096) % 2 ^ 64) = (.ok, p') := by
  unfold markRequiredPages at h
  split at h
  · next q hq =>
    refine ⟨q, hq, ?_⟩
    split at h
    · next hmark =>
      rw [hmark]
      exact congrArg (Prod.mk _) (congrArg Prod.snd h)
    · cases h
  · next hfail => exact (hfail _ h).elim

/-- **One round of the loop**, in the state after `t` pages were marked. -/
theorem withMarked_markPageUsed {i base : ℕ} {offset : BitVec 64} {p : Pmm} {t : ℕ}
    (hbase : (p.regions i).base = base) (hptr : p.regionsPtr = physToVirt base offset)
    (hend : base + t * 4096 < 2 ^ 64) :
    (p.withMarked i t).markPageUsed i
        ((((p.withMarked i t).regionsPtr - offset).toNat + t * 4096) % 2 ^ 64)
      = if (p.regions i).Rejects (base + t * 4096) then (.error, p.withMarked i t)
        else (.ok, p.withMarked i (t + 1)) := by
  have haddr : (((p.withMarked i t).regionsPtr - offset).toNat + t * 4096) % 2 ^ 64
      = base + t * 4096 := by
    have hptr' : (p.withMarked i t).regionsPtr = physToVirt base offset := hptr
    rw [hptr', physToVirt_sub (by omega)]
    omega
  have hpage : ((p.withMarked i t).regions i).pageOf (base + t * 4096) = t := by
    unfold PmmRegion.pageOf
    rw [withMarked_region]
    dsimp only
    omega
  have hrejects : ((p.withMarked i t).regions i).Rejects (base + t * 4096)
      ↔ (p.regions i).Rejects (base + t * 4096) := by
    rw [withMarked_region]
    exact Iff.rfl
  have hstep : (p.withMarked i t).withPageUsed i t = p.withMarked i (t + 1) := by
    unfold withPageUsed
    rw [withMarked_region]
    exact p.withFreePages_withFreePages i _ _ _ _
  rw [haddr, markPageUsed_eq, hpage, hstep]
  exact if_congr hrejects rfl rfl

/-- **A loop without an error marks the pages one by one.** -/
theorem eq_withMarked_of_markRequiredPages {i base : ℕ} {offset : BitVec 64} {p p' : Pmm}
    {t : ℕ} (hbase : (p.regions i).base = base) (hptr : p.regionsPtr = physToVirt base offset)
    (hend : base + t * 4096 < 2 ^ 64) (h : markRequiredPages i offset p t = (.ok, p')) :
    p' = p.withMarked i t := by
  induction t generalizing p' with
  | zero =>
    obtain rfl : p = p' := congrArg Prod.snd h
    exact (p.withRegion_self i).symm
  | succ t ih =>
    rw [Nat.succ_mul, ← Nat.add_assoc] at hend
    have hlt : base + t * 4096 < 2 ^ 64 := by omega
    obtain ⟨q, hq, hmark⟩ := markRequiredPages_succ_eq_ok h
    obtain rfl := ih hlt hq
    rw [withMarked_markPageUsed hbase hptr hlt] at hmark
    split at hmark
    · cases hmark
    · exact (congrArg Prod.snd hmark).symm

/-- **The loop has no error** where the pages belong to the region. -/
theorem markRequiredPages_eq {i base : ℕ} {offset : BitVec 64} {p : Pmm} {t : ℕ}
    (hbase : (p.regions i).base = base) (hptr : p.regionsPtr = physToVirt base offset)
    (hfits : t * 4096 ≤ (p.regions i).length)
    (hend : (p.regions i).base + (p.regions i).length < 2 ^ 64) :
    markRequiredPages i offset p t = (.ok, p.withMarked i t) := by
  have hpage : ∀ s < t, base + s * 4096 < 2 ^ 64 ∧ ¬ (p.regions i).Rejects (base + s * 4096) := by
    intro s hs
    unfold PmmRegion.Rejects
    omega
  clear hfits
  induction t with
  | zero => exact congrArg (Prod.mk PmmErrorCode.ok) (p.withRegion_self i).symm
  | succ t ih =>
    obtain ⟨hlt, hrej⟩ := hpage t (Nat.lt_succ_self t)
    have hmark := withMarked_markPageUsed hbase hptr hlt
    rw [if_neg hrej] at hmark
    rw [markRequiredPages, ih fun s hs => hpage s (Nat.lt_succ_of_lt hs)]
    dsimp only
    rw [hmark]

end Pmm

/-! ## A successful initialization -/

/-- Region `f` is the first one that starts at the manager's data. -/
structure IsFirstAtData (m : Memmap) (f : ℕ) : Prop where
  /-- It does not come after the data's own region. -/
  le : f ≤ m.dataEntry
  /-- It starts there. -/
  base_eq : (m.entries f).base = m.dataBase
  /-- The ones before it do not. -/
  first : ∀ i < f, (m.entries i).base ≠ m.dataBase

theorem holdsData_of_findPmmEntry {m : Memmap} {d : ℕ}
    (h : findPmmEntry m.toLimineMemmapResponse m.requiredPages = some d)
    (hbase : (m.entries d).base ≠ 0) : m.HoldsData d := by
  have hmem := List.mem_of_find?_eq_some h
  have hsome := List.find?_some h
  rw [decide_eq_true_eq, Nat.mod_eq_of_lt m.requiredPages_lt] at hsome
  exact ⟨List.mem_range.mp hmem, hsome.1, hsome.2, hbase⟩

theorem findRegionWithBase_spec {m : Memmap} {p : Pmm} (hl : HasLayout m p)
    (hd : m.dataEntry < m.entryCount) :
    ∃ f, p.findRegionWithBase m.dataBase = some f ∧ IsFirstAtData m f := by
  have hsome : ((List.range p.numRegions).find? fun i =>
      decide ((p.regions i).base = m.dataBase)).isSome := by
    rw [List.find?_isSome]
    refine ⟨m.dataEntry, ?_, decide_eq_true (hl.base_eq _ hd)⟩
    rw [List.mem_range, hl.numRegions_eq]
    exact hd
  obtain ⟨f, hf⟩ := Option.isSome_iff_exists.mp hsome
  obtain ⟨hbase, -, hfirst⟩ := List.find?_range_eq_some.mp hf
  have hle : f ≤ m.dataEntry := by
    by_contra hgt
    have hne := hfirst m.dataEntry (by omega)
    have hdata : (p.regions m.dataEntry).base = m.dataBase := hl.base_eq _ hd
    rw [decide_eq_true hdata] at hne
    exact absurd hne Bool.false_ne_true
  refine ⟨f, hf, hle, ?_, fun i hi hbad => ?_⟩
  · rw [← hl.base_eq f (by omega)]
    exact of_decide_eq_true hbase
  · have hne := hfirst i hi
    rw [decide_eq_true ((hl.base_eq i (by omega)).trans hbad)] at hne
    exact absurd hne Bool.false_ne_true

/-- **The region structs**: the regions are made ready, and then the pages are
marked in the first one that starts at the data. -/
theorem initRegionStructs_eq {m : Memmap} {offset : BitVec 64} {p : Pmm}
    (hd : m.dataEntry < m.entryCount) (hn : p.numRegions = m.entryCount) :
    ∃ q f, RegionsReady m q ∧ IsFirstAtData m f ∧ q.regionsPtr = physToVirt m.dataBase offset
      ∧ q.physToVirtOffset = p.physToVirtOffset
      ∧ p.initRegionStructs m.toLimineMemmapResponse m.dataBase offset m.requiredPages
        = q.markRequiredPages f offset m.requiredPages := by
  unfold Pmm.initRegionStructs
  dsimp only
  have hn₁ : { p with regionsPtr := physToVirt m.dataBase offset }.numRegions = m.entryCount := hn
  have hptr₁ : { p with regionsPtr := physToVirt m.dataBase offset }.regionsPtr
      = physToVirt m.dataBase offset := rfl
  have hoff₁ : { p with regionsPtr := physToVirt m.dataBase offset }.physToVirtOffset
      = p.physToVirtOffset := rfl
  generalize { p with regionsPtr := physToVirt m.dataBase offset } = p₁ at hn₁ hptr₁ hoff₁ ⊢
  rw [hn]
  have hready := Pmm.regionsReady_initRegions m offset p₁ m.dataBase hn₁ hptr₁
  have hframe := (Pmm.initRegionsAt_initRegions m offset p₁ m.dataBase le_rfl).frame
  have harray : m.regionArraySize = m.entryCount * sizeofPmmRegion := rfl
  rw [harray] at hready hframe
  generalize (Pmm.initRegions m.toLimineMemmapResponse offset p₁
    ((m.dataBase + m.entryCount * sizeofPmmRegion) % 2 ^ 64) m.entryCount).1 = q
    at hready hframe ⊢
  have hptr : q.regionsPtr = physToVirt m.dataBase offset := by
    rw [hframe]
    exact hptr₁
  have hoff : q.physToVirtOffset = p.physToVirtOffset := by
    rw [hframe]
    exact hoff₁
  obtain ⟨f, hf, hfirst⟩ := findRegionWithBase_spec hready.toHasLayout hd
  refine ⟨q, f, hready, hfirst, hptr, hoff, ?_⟩
  rw [hf]

/-- A region that starts at the data has the data's base. -/
theorem RegionsReady.base_eq_dataBase {m : Memmap} {q : Pmm} (h : RegionsReady m q) {f : ℕ}
    (hf : IsFirstAtData m f) (hd : m.dataEntry < m.entryCount) :
    (q.regions f).base = m.dataBase := by
  rw [h.base_eq f (lt_of_le_of_lt hf.le hd), hf.base_eq]

/-- The region structs of a successful initialization. -/
theorem initRegionStructs_ok {m : Memmap} {offset : BitVec 64} {p p' : Pmm}
    (hd : m.HoldsData m.dataEntry) (hn : p.numRegions = m.entryCount)
    (h : p.initRegionStructs m.toLimineMemmapResponse m.dataBase offset m.requiredPages
      = (.ok, p')) :
    ∃ q f, RegionsReady m q ∧ IsFirstAtData m f ∧ q.regionsPtr = physToVirt m.dataBase offset
      ∧ q.physToVirtOffset = p.physToVirtOffset ∧ p' = q.withMarked f m.requiredPages := by
  obtain ⟨q, f, hready, hfirst, hptr, hoff, heq⟩ := @initRegionStructs_eq m offset p hd.lt hn
  rw [heq] at h
  exact ⟨q, f, hready, hfirst, hptr, hoff, Pmm.eq_withMarked_of_markRequiredPages
    (hready.base_eq_dataBase hfirst hd.lt) hptr hd.end_lt h⟩

/-- **The state after `PMM_OK`.** Every region is ready, and then the bits of
the required pages are set through the first region that starts at the data. -/
theorem pmmInit_ok {m : Memmap} {hhdm : BitVec 64} {p : Pmm}
    (h : (pmmInit m.toLimineMemmapResponse hhdm p).1 = .ok) :
    m.HoldsData m.dataEntry ∧ ∃ q f, RegionsReady m q ∧ IsFirstAtData m f
      ∧ q.regionsPtr = physToVirt m.dataBase hhdm ∧ q.physToVirtOffset = hhdm
      ∧ (pmmInit m.toLimineMemmapResponse hhdm p).2 = q.withMarked f m.requiredPages := by
  unfold pmmInit at h ⊢
  dsimp only at h ⊢
  have hreq : pmmGetNumRequiredPages (pmmDetectMemory m.toLimineMemmapResponse).1
      (pmmDetectMemory m.toLimineMemmapResponse).2 = m.requiredPages := rfl
  rw [hreq] at h ⊢
  cases hfind : findPmmEntry m.toLimineMemmapResponse m.requiredPages with
  | none =>
    rw [hfind] at h
    cases h
  | some d =>
    have hdata : m.dataEntry = d := by
      unfold Memmap.dataEntry
      rw [hfind]
      rfl
    rw [hfind] at h
    subst hdata
    dsimp only at h ⊢
    by_cases hbase : (m.entries m.dataEntry).base = 0
    · rw [if_pos hbase] at h
      cases h
    have hd := holdsData_of_findPmmEntry hfind hbase
    rw [if_neg hbase] at h ⊢
    refine ⟨hd, ?_⟩
    split at h
    · next p₂ hstructs =>
      exact initRegionStructs_ok hd rfl hstructs
    · cases h

/-! ## The pages that are never free -/

/-- **What the bitmaps guard.** In the layout of the map, the pages of the
manager's data are marked as used, and so is every bit of a region that is not
usable. -/
structure Guarded (m : Memmap) (p : Pmm) : Prop extends HasLayout m p where
  /-- The region array starts at the data's base. -/
  regionsPtr_eq : p.regionsPtr = physToVirt m.dataBase p.physToVirtOffset
  /-- The bits of the required pages are set. -/
  bitAt_required : ∀ k < m.requiredPages, k / 8 < (p.regions m.dataEntry).bitmapSize →
    p.pageBit m.dataEntry k = true
  /-- The bits of a region that is not usable are set. -/
  bitmapByte_unusable : ∀ i < m.entryCount, (m.entries i).type ≠ .usable →
    ∀ b < (p.regions i).bitmapSize, p.bitmapByte i b = uint8Max

/-- The bitmap through which the required pages are marked is that of the
data's region. -/
theorem IsFirstAtData.bitmap_eq {m : Memmap} {p : Pmm} {f : ℕ} (hf : IsFirstAtData m f)
    (hd : m.dataEntry < m.entryCount) (hl : HasLayout m p) :
    (p.regions f).bitmap = (p.regions m.dataEntry).bitmap := by
  rw [hl.bitmap_eq f (lt_of_le_of_lt hf.le hd), hl.bitmap_eq _ hd,
    Memmap.bitmapOffset_eq_of_base_eq hf.le hd hf.base_eq]

/-- The bits of the required pages are set, also where the bitmap is too short
for them. -/
theorem bitAt_required_of_pmmInit {m : Memmap} {hhdm : BitVec 64} {p : Pmm}
    (h : (pmmInit m.toLimineMemmapResponse hhdm p).1 = .ok) {k : ℕ} (hk : k < m.requiredPages) :
    (pmmInit m.toLimineMemmapResponse hhdm p).2.pageBit m.dataEntry k = true := by
  obtain ⟨hd, q, f, hready, hf, -, -, hp⟩ := pmmInit_ok h
  rw [hp]
  unfold Pmm.withMarked
  rw [Pmm.pageBit_withFreePages, ← hf.bitmap_eq hd.lt hready.toHasLayout]
  exact Bitmap.bitAt_setBits_of_lt hk

/-- **A successful initialization guards the pages that must not be handed
out.** -/
theorem guarded_of_pmmInit {m : Memmap} {hhdm : BitVec 64} {p : Pmm}
    (h : (pmmInit m.toLimineMemmapResponse hhdm p).1 = .ok) :
    m.HoldsData m.dataEntry ∧ Guarded m (pmmInit m.toLimineMemmapResponse hhdm p).2 := by
  have hrequired := fun k => @bitAt_required_of_pmmInit m hhdm p h k
  obtain ⟨hd, q, f, hready, hf, hptr, hoff, hp⟩ := pmmInit_ok h
  refine ⟨hd, ?_, ?_, fun k hk _ => hrequired k hk, ?_⟩
  · rw [hp]
    exact hready.toHasLayout.withFreePages f _ _
  · rw [hp]
    rw [← hoff] at hptr
    exact hptr
  · intro i hi hu b hb
    rw [hp] at hb ⊢
    unfold Pmm.withMarked at hb ⊢
    rw [Pmm.bitmapSize_withFreePages] at hb
    have hbyte := hready.bitmapByte_eq i hi b hb
    rw [if_neg hu] at hbyte
    rw [Pmm.bitmapByte_withFreePages]
    exact Bitmap.byteAt_setBits_allOnes hbyte
