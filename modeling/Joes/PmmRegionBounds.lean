import Joes.PmmRegion
import Joes.TracedProgram
import Joes.CallRun

/-!
# The bounds of a region

Three computations of `pmm_region.c` must agree at the end of a region: the
test of an address, the number of pages, which is rounded down, and the bytes
of the bitmap, which are rounded up. Nothing else keeps the marking functions
inside the bitmap, and the byte behind it belongs to the next one.

Here the two functions are written with what they access of the bitmap as their
trace (`PmmRegionMark.runs`). A call respects the bounds (`RespectsBounds`) for
most addresses, and `respectsBounds_iff` says for which ones: not for the end of
the region, which passes the test, and not for an address in an incomplete last
page, if the complete ones fill their bytes.
-/

/-- A program on a region and the memory, with the bytes of the bitmap as cells. -/
abbrev RegionProgram := Traced (PmmRegion × ByteMemory) (Traced.Access ℕ)

namespace RegionProgram

/-- `region->bitmap[byte]` -/
def readByte (byte : ℕ) : RegionProgram (BitVec 8) :=
  Traced.load (fun s b => Bitmap.byteAt s.2 s.1.bitmap b) byte

/-- `region->bitmap[byte] = value` -/
def writeByte (byte : ℕ) (value : BitVec 8) : RegionProgram Unit :=
  Traced.store (fun s b v => (s.1, Function.update s.2 (Bitmap.byteAddress s.1.bitmap b) v))
    byte value

/-- What the marking functions share: they differ in what they make of the byte
with the mask of the page, and of the number of free pages. -/
def markPage (newByte : BitVec 8 → BitVec 8 → BitVec 8) (newFreePages : ℕ → ℕ)
    (physAddress : ℕ) : RegionProgram PmmRegionErrorCode := do
  let region ← Traced.gets Prod.fst
  if region.Rejects physAddress then
    return .error
  else
    let page := region.pageOf physAddress
    let value ← readByte (page / 8)
    writeByte (page / 8) (newByte value (1#8 <<< (page % 8)))
    Traced.modify fun s => ({ s.1 with freePages := newFreePages s.1.freePages }, s.2)
    return .ok

/-- `pmm_region_mark_page_free`. -/
def pmmRegionMarkPageFree : ℕ → RegionProgram PmmRegionErrorCode :=
  markPage (fun value mask => value &&& ~~~mask) fun n => (n + 1) % 2 ^ 64

/-- `pmm_region_mark_page_used`. -/
def pmmRegionMarkPageUsed : ℕ → RegionProgram PmmRegionErrorCode :=
  markPage (fun value mask => value ||| mask) fun n => (n + 2 ^ 64 - 1) % 2 ^ 64

end RegionProgram

/-- What the marking functions access of the bitmap. -/
def PmmRegion.accesses (r : PmmRegion) (physAddress : ℕ) : List (Traced.Access ℕ) :=
  if r.Rejects physAddress then []
  else [.read (r.pageOf physAddress / 8), .write (r.pageOf physAddress / 8)]

namespace RegionProgram

variable {newByte : BitVec 8 → BitVec 8 → BitVec 8} {newFreePages : ℕ → ℕ} {r : PmmRegion} {a : ℕ}

theorem markPage_of_rejects (h : r.Rejects a) (mem : ByteMemory) :
    (markPage newByte newFreePages a).Runs (r, mem) (r.accesses a) .error (r, mem) := by
  rw [PmmRegion.accesses, if_pos h]
  refine Traced.Runs.gets_seq ?_
  rw [if_pos h]
  exact Traced.runs_pure.mpr ⟨rfl, rfl, rfl⟩

theorem markPage_of_not_rejects (h : ¬ r.Rejects a) (mem : ByteMemory) :
    (markPage newByte newFreePages a).Runs (r, mem) (r.accesses a) .ok
      ({ r with freePages := newFreePages r.freePages },
        Function.update mem (Bitmap.byteAddress r.bitmap (r.pageOf a / 8))
          (newByte (Bitmap.byteAt mem r.bitmap (r.pageOf a / 8)) (1#8 <<< (r.pageOf a % 8)))) := by
  rw [PmmRegion.accesses, if_neg h]
  refine Traced.Runs.gets_seq ?_
  rw [if_neg h]
  refine Traced.Runs.load_seq (Traced.Runs.store_seq (Traced.Runs.modify_seq ?_))
  exact Traced.runs_pure.mpr ⟨rfl, rfl, rfl⟩

end RegionProgram

/-- The two marking functions. -/
inductive PmmRegionMark where
  /-- `pmm_region_mark_page_free` -/
  | free
  /-- `pmm_region_mark_page_used` -/
  | used
  deriving DecidableEq, Repr

namespace PmmRegionMark

/-- The function, with its accesses. -/
def program : PmmRegionMark → ℕ → RegionProgram PmmRegionErrorCode
  | free => RegionProgram.pmmRegionMarkPageFree
  | used => RegionProgram.pmmRegionMarkPageUsed

/-- The function, with its result only. -/
def call : PmmRegionMark → PmmRegion → ℕ → ByteMemory →
    PmmRegionErrorCode × PmmRegion × ByteMemory
  | free => pmmRegionMarkPageFree
  | used => pmmRegionMarkPageUsed

/-- **A marking function runs** to its result, with at most one byte read and
written. -/
theorem runs (mark : PmmRegionMark) (r : PmmRegion) (a : ℕ) (mem : ByteMemory) :
    (mark.program a).Runs (r, mem) (r.accesses a) (mark.call r a mem).1 (mark.call r a mem).2 := by
  by_cases h : r.Rejects a
  · cases mark with
    | free =>
      rw [program, RegionProgram.pmmRegionMarkPageFree, call,
        pmmRegionMarkPageFree_of_rejects _ _ _ h]
      exact RegionProgram.markPage_of_rejects h mem
    | used =>
      rw [program, RegionProgram.pmmRegionMarkPageUsed, call,
        pmmRegionMarkPageUsed_of_rejects _ _ _ h]
      exact RegionProgram.markPage_of_rejects h mem
  · cases mark with
    | free =>
      rw [program, RegionProgram.pmmRegionMarkPageFree, call,
        pmmRegionMarkPageFree_of_not_rejects _ _ _ h]
      exact RegionProgram.markPage_of_not_rejects h mem
    | used =>
      rw [program, RegionProgram.pmmRegionMarkPageUsed, call,
        pmmRegionMarkPageUsed_of_not_rejects _ _ _ h]
      exact RegionProgram.markPage_of_not_rejects h mem

/-- The return code is the test of the address. -/
theorem call_code (mark : PmmRegionMark) (r : PmmRegion) (a : ℕ) (mem : ByteMemory) :
    (mark.call r a mem).1 = if r.Rejects a then .error else .ok := by
  cases mark <;> exact apply_ite Prod.fst _ _ _

/-- An address that is rejected changes nothing. -/
theorem call_of_rejects (mark : PmmRegionMark) {r : PmmRegion} {a : ℕ} (h : r.Rejects a)
    (mem : ByteMemory) : (mark.call r a mem).2 = (r, mem) := by
  cases mark with
  | free => rw [call, pmmRegionMarkPageFree_of_rejects _ _ _ h]
  | used => rw [call, pmmRegionMarkPageUsed_of_rejects _ _ _ h]

/-- **A marking function changes nothing of a region** but the number of its free
pages. -/
theorem exists_call_region (mark : PmmRegionMark) (r : PmmRegion) (a : ℕ) (mem : ByteMemory) :
    ∃ n, (mark.call r a mem).2.1 = { r with freePages := n } := by
  by_cases h : r.Rejects a
  · rw [call_of_rejects mark h]
    exact ⟨r.freePages, rfl⟩
  · cases mark with
    | free =>
      rw [call, pmmRegionMarkPageFree_of_not_rejects _ _ _ h]
      exact ⟨_, rfl⟩
    | used =>
      rw [call, pmmRegionMarkPageUsed_of_not_rejects _ _ _ h]
      exact ⟨_, rfl⟩

end PmmRegionMark

/-! ## The bounds -/

/-- **The bounds a region is set up with**: any base and, as a `ptrdiff_t`, any
length, whose sum does not wrap. -/
structure PmmRegionRange where
  /-- The physical address of the first page. -/
  base : BitVec 64
  /-- The length in bytes. -/
  length : BitVec 64
  /-- The end is not below the address space. -/
  end_nonneg : 0 ≤ base.toNat + length.toInt
  /-- And it is an address. -/
  end_lt : base.toNat + length.toInt < 2 ^ 64

namespace PmmRegionRange

variable (R : PmmRegionRange) (a : BitVec 64)

/-- The address lies in the region. -/
def Contains : Prop :=
  R.base.toNat ≤ a.toNat ∧ (a.toNat : ℤ) < R.base.toNat + R.length.toInt

/-- The address is the end of the region, and not below its base. -/
def IsEnd : Prop :=
  R.base.toNat ≤ a.toNat ∧ (a.toNat : ℤ) = R.base.toNat + R.length.toInt

/-- The number of complete pages. -/
def pages : ℤ := R.length.toInt / 4096

/-- The address lies in the region behind its complete pages, and these fill the
bytes of the bitmap. -/
def HasNoByte : Prop := R.Contains a ∧ R.base.toNat + R.pages * 4096 ≤ a.toNat ∧ 8 ∣ R.pages

instance : Decidable (R.Contains a) := inferInstanceAs (Decidable (_ ∧ _))

instance : Decidable (R.IsEnd a) := inferInstanceAs (Decidable (_ ∧ _))

instance : Decidable (R.HasNoByte a) := inferInstanceAs (Decidable (_ ∧ _))

end PmmRegionRange

/-- **A region with the bounds of a range**: what `pmm_region_init` writes and the
marking functions leave alone. -/
structure PmmRegion.HasBounds (r : PmmRegion) (R : PmmRegionRange) : Prop where
  /-- The base. -/
  base_eq : r.base = R.base.toNat
  /-- The length. -/
  length_eq : r.length = R.length.toNat
  /-- The bytes of the bitmap. -/
  bitmapSize_eq : r.bitmapSize = regionBitmapSize R.length.toNat

/-- `pmm_region_init` sets a region up with its bounds. -/
theorem hasBounds_pmmRegionInit (mem : ByteMemory) (ptr : BitVec 64) (R : PmmRegionRange)
    (type : PmmMemoryType) :
    (pmmRegionInit mem ptr R.base.toNat R.length.toNat type).1.HasBounds R := by
  rw [pmmRegionInit_eq]
  exact ⟨rfl, rfl, rfl⟩

/-- A marking function called for a region with some memory, at an address. -/
def regionCall (r : PmmRegion) (c : PmmRegionMark × ℕ × ByteMemory) : Option PmmRegion :=
  some (c.1.call r c.2.1 c.2.2).2.1

namespace PmmRegion.HasBounds

variable {r : PmmRegion} {R : PmmRegionRange} {a : BitVec 64}

/-- **The bounds are kept** by the marking functions. -/
theorem call (h : r.HasBounds R) (mark : PmmRegionMark) (b : ℕ) (mem : ByteMemory) :
    (mark.call r b mem).2.1.HasBounds R := by
  obtain ⟨n, hn⟩ := mark.exists_call_region r b mem
  rw [hn]
  exact ⟨h.base_eq, h.length_eq, h.bitmapSize_eq⟩

/-- And so by every run of them. -/
theorem reaches {r' : PmmRegion} (h : r.HasBounds R)
    (hrun : Reaches regionCall (fun _ _ => True) r r') : r'.HasBounds R := by
  refine hrun.invariant (P := fun r => r.HasBounds R) h ?_
  rintro s ⟨mark, b, mem⟩ t hs - hcall
  obtain rfl := Option.some.inj hcall
  exact hs.call mark b mem

/-- **The test of an address** lets the end of the region pass. -/
theorem rejects_iff (h : r.HasBounds R) :
    r.Rejects a.toNat ↔ ¬ R.Contains a ∧ ¬ R.IsEnd a := by
  have hsum : ((R.base.toNat + R.length.toNat) % 2 ^ 64 : ℕ)
      = (R.base.toNat : ℤ) + R.length.toInt := by
    have hnonneg := R.end_nonneg
    have hlt := R.end_lt
    have hbase := R.base.isLt
    rw [BitVec.toInt_eq_toNat_cond] at *
    split at * <;> omega
  unfold PmmRegion.Rejects PmmRegionRange.Contains PmmRegionRange.IsEnd
  rw [h.base_eq, h.length_eq]
  omega

/-- A region with an address has a length that is not negative. -/
theorem toInt_length (ha : R.Contains a) : R.length.toInt = R.length.toNat := by
  obtain ⟨hbase, hend⟩ := ha
  rw [BitVec.toInt_eq_toNat_cond] at *
  split at * <;> omega

/-- **The byte of an address** lies in the bitmap, unless the address is in an
incomplete page that has none. -/
theorem pageOf_div_lt_iff (h : r.HasBounds R) (ha : R.Contains a) :
    r.pageOf a.toNat / 8 < r.bitmapSize ↔ ¬ R.HasNoByte a := by
  have hlength := toInt_length ha
  have hlt : R.length.toNat < 2 ^ 63 := by
    have hle := R.length.toInt_lt
    omega
  unfold PmmRegionRange.HasNoByte PmmRegionRange.pages PmmRegion.pageOf
  rw [h.bitmapSize_eq, regionBitmapSize_of_lt hlt, h.base_eq, hlength]
  obtain ⟨hbase, hend⟩ := id ha
  rw [hlength] at hend
  simp only [ha, true_and]
  omega

end PmmRegion.HasBounds

/-- **A call that respects the bounds**: it accepts only an address in the region
and touches only bytes of the bitmap, and if it fails it changes nothing. -/
structure RespectsBounds (R : PmmRegionRange) (a : BitVec 64) (s : PmmRegion × ByteMemory)
    (t : List (Traced.Access ℕ)) (code : PmmRegionErrorCode) (s' : PmmRegion × ByteMemory) :
    Prop where
  /-- `PMM_REGION_OK` is returned for an address in the region. -/
  contains : code = .ok → R.Contains a
  /-- What is accessed is in the bitmap. -/
  cell_lt : ∀ e ∈ t, e.cell < s.1.bitmapSize
  /-- With `PMM_REGION_ERROR` region and memory are as they were. -/
  unchanged : code = .error → s' = s

section Bounds

variable {r : PmmRegion} {R : PmmRegionRange} {a : BitVec 64}

/-- Whether the one run of a call respects the bounds. -/
theorem exists_runs_respectsBounds_iff (mark : PmmRegionMark) (mem : ByteMemory) :
    (∃ t code s', (mark.program a.toNat).Runs (r, mem) t code s' ∧
        RespectsBounds R a (r, mem) t code s') ↔
      RespectsBounds R a (r, mem) (r.accesses a.toNat) (mark.call r a.toNat mem).1
        (mark.call r a.toNat mem).2 := by
  have hrun := mark.runs r a.toNat mem
  constructor
  · rintro ⟨t, code, s', hrun', hbounds⟩
    obtain rfl := hrun.unique hrun'
    obtain ⟨rfl, rfl⟩ := hrun.unique_result hrun'
    exact hbounds
  · exact fun hbounds => ⟨_, _, _, hrun, hbounds⟩

/-- **When a marking function respects the bounds of a region**, whatever was done
with the region before: for the addresses that are not its end and not in an
incomplete page without a byte. -/
theorem respectsBounds_iff (R : PmmRegionRange) (mem₀ : ByteMemory) (ptr : BitVec 64)
    (type : PmmMemoryType)
    (hr : Reaches regionCall (fun _ _ => True)
      (pmmRegionInit mem₀ ptr R.base.toNat R.length.toNat type).1 r)
    (mark : PmmRegionMark) (mem : ByteMemory) (a : BitVec 64) :
    (∃ t code s', (mark.program a.toNat).Runs (r, mem) t code s' ∧
        RespectsBounds R a (r, mem) t code s') ↔ ¬ R.IsEnd a ∧ ¬ R.HasNoByte a := by
  have h := (hasBounds_pmmRegionInit mem₀ ptr R type).reaches hr
  have hcode := mark.call_code r a.toNat mem
  rw [exists_runs_respectsBounds_iff]
  by_cases hrej : r.Rejects a.toNat
  · obtain ⟨hout, hend⟩ := h.rejects_iff.mp hrej
    rw [if_pos hrej] at hcode
    rw [hcode, mark.call_of_rejects hrej, PmmRegion.accesses, if_pos hrej]
    have hrespects : RespectsBounds R a (r, mem) [] .error (r, mem) :=
      ⟨fun hok => absurd hok (by decide), List.forall_mem_nil _, fun _ => rfl⟩
    exact iff_of_true hrespects ⟨hend, fun hbyte => hout hbyte.1⟩
  · rw [if_neg hrej] at hcode
    rw [hcode, PmmRegion.accesses, if_neg hrej]
    constructor
    · rintro ⟨hcontains, hcell, -⟩
      have ha := hcontains rfl
      refine ⟨fun hend => ?_, (h.pageOf_div_lt_iff ha).mp (hcell _ List.mem_cons_self)⟩
      exact absurd ha.2 (by rw [hend.2]; exact lt_irrefl _)
    · rintro ⟨hend, hbyte⟩
      have ha : R.Contains a := by
        by_contra hout
        exact hrej (h.rejects_iff.mpr ⟨hout, hend⟩)
      have hlt := (h.pageOf_div_lt_iff ha).mpr hbyte
      refine ⟨fun _ => ha, ?_, fun herror => absurd herror (by decide)⟩
      exact List.forall_mem_cons.mpr ⟨hlt, List.forall_mem_singleton.mpr hlt⟩

/-- A region of eight pages. -/
def eightPages : PmmRegionRange := ⟨0x100000#64, 0x8000#64, by decide, by decide⟩

/-- Its last byte can be marked. -/
theorem respectsBounds_eightPages :
    let r := (pmmRegionInit (fun _ => 0#8) 0x4000#64 0x100000 0x8000 .usable).1
    ∃ t code s', (PmmRegionMark.used.program 0x107fff).Runs (r, fun _ => 0#8) t code s' ∧
      RespectsBounds eightPages 0x107fff#64 (r, fun _ => 0#8) t code s' :=
  (respectsBounds_iff eightPages (fun _ => 0#8) 0x4000#64 .usable .refl .used (fun _ => 0#8)
    0x107fff#64).mpr (by decide)

/-- But so can the byte behind it: the call succeeds, and its bit is in the second
byte of a bitmap of one byte. -/
theorem not_respectsBounds_eightPages :
    let r := (pmmRegionInit (fun _ => 0#8) 0x4000#64 0x100000 0x8000 .usable).1
    r.bitmapSize = 1 ∧ r.accesses 0x108000 = [.read 1, .write 1] ∧
      ¬ ∃ t code s', (PmmRegionMark.used.program 0x108000).Runs (r, fun _ => 0#8) t code s' ∧
        RespectsBounds eightPages 0x108000#64 (r, fun _ => 0#8) t code s' := by
  have hsize : regionBitmapSize 0x8000 = 1 := by
    rw [regionBitmapSize_of_lt (by decide)]
  rw [pmmRegionInit_eq, hsize]
  refine ⟨rfl, rfl, fun hrun => ?_⟩
  obtain ⟨hcontains, -, -⟩ :=
    (exists_runs_respectsBounds_iff (a := 0x108000#64) .used fun _ => 0#8).mp hrun
  exact absurd (hcontains rfl) (by decide)

end Bounds
