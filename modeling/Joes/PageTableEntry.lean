import Joes.BitField
import Mathlib.Data.Nat.Bitwise
import Mathlib.Tactic.IntervalCases
import Mathlib.Tactic.FinCases

/-!
# Page table entries and indices

An entry of any of the four x86-64 page tables is one 64-bit word, and the
kernel's `union page_table_entry_t` is a family of bit-field views of it. The
views agree on bit 0 (`present`), on bit 7 (`page_size`) where it exists, and
on the 28-bit address of a further table; they differ in where the address of
a *page* sits, which is what `pagingCreateEntry` and `pagingGetFlagsFromEntry`
switch on. The word itself is the model of the union, so `raw` is the identity.

Building an entry writes one field and keeps the flags below it. What the
entry then divides into is a question of the layouts of the views, and for
another file. For virtual addresses, the four indices determine a canonical
address down to its page and are recovered from the address assembled from them.
-/

/-- `page_table_level_t`. -/
inductive PageTableLevel where
  | pml4 | pdpr | pd | pt
  deriving DecidableEq, Repr

/-- `page_table_entry_type_t`: an entry points to another table or describes a
page. -/
inductive PageTableEntryType where
  | pointer | page
  deriving DecidableEq, Repr

/-- `page_size_t`: the three page sizes, `PAGE_SIZE_4KB`, `PAGE_SIZE_2MB` and
`PAGE_SIZE_1GB`. -/
inductive PageSize where
  | kb4 | mb2 | gb1
  deriving DecidableEq, Repr

/-- `union page_table_entry_t`, as its `raw` word. -/
abbrev PageTableEntry := BitVec 64

/-- An index into a table of `PAGE_TABLE_NUM_ENTRIES = 512` entries. -/
abbrev TableIndex := BitVec 9

/-- `PAGING_FLAG_PRESENT`. -/
def pagingFlagPresent : BitVec 64 := 1#64

/-- `PAGING_FLAG_WRITABLE`. -/
def pagingFlagWritable : BitVec 64 := 2#64

namespace PageSize

/-- The level whose entries are the leaves of this size. -/
def level : PageSize → PageTableLevel
  | kb4 => .pt
  | mb2 => .pd
  | gb1 => .pdpr

/-- A page of this size has `2 ^ shift` bytes. -/
def shift : PageSize → ℕ
  | kb4 => 12
  | mb2 => 21
  | gb1 => 30

theorem shift_le (size : PageSize) : 12 ≤ size.shift ∧ size.shift ≤ 30 := by
  cases size <;> decide

end PageSize

/-- The address is one of a page of the given size below `2 ^ 40`, which is
what the address fields of the entries can hold. -/
def IsFrame (size : PageSize) (a : BitVec 64) : Prop :=
  a.toNat < 2 ^ 40 ∧ a.toNat % 2 ^ size.shift = 0

instance (size : PageSize) (a : BitVec 64) : Decidable (IsFrame size a) :=
  inferInstanceAs (Decidable (_ ∧ _))

/-- The bits of a page address lie between its alignment and bit 40. -/
theorem IsFrame.getLsbD {size : PageSize} {a : BitVec 64} (h : IsFrame size a) {i : ℕ}
    (hi : a.getLsbD i = true) : size.shift ≤ i ∧ i < 40 := by
  obtain ⟨hlt, hmod⟩ := h
  rw [BitVec.getLsbD] at hi
  constructor
  · by_contra hlow
    have hbit : (a.toNat % 2 ^ size.shift).testBit i = a.toNat.testBit i := by
      rw [Nat.testBit_mod_two_pow]
      simp [Nat.lt_of_not_le hlow]
    rw [hmod, hi] at hbit
    simp at hbit
  · by_contra hhigh
    have hpow : 2 ^ 40 ≤ 2 ^ i := Nat.pow_le_pow_right (by decide) (Nat.le_of_not_lt hhigh)
    rw [Nat.testBit_lt_two_pow (lt_of_lt_of_le hlt hpow)] at hi
    exact Bool.false_ne_true hi

namespace PageTableEntry

/-- The field `present`, the same bit in every view of the union. -/
def present (e : PageTableEntry) : Bool := e.getLsbD 0

/-- The field `page_size` of the PDPR and PD views. -/
def pageSize (e : PageTableEntry) : Bool := e.getLsbD 7

/-- `pointer_fields.base_address << 12`: the physical address of the table an
entry of the PML4, PDPR or PD points to. -/
def tableAddress (e : PageTableEntry) : BitVec 64 :=
  (BitField.read e 12 28).setWidth 64 <<< 12

/-- `page_fields.base_address`, shifted back: the physical address of the page
a leaf of the given size maps. -/
def pageBase (size : PageSize) (e : PageTableEntry) : BitVec 64 :=
  match size with
  | .gb1 => (BitField.read e 30 10).setWidth 64 <<< 30
  | .mb2 => (BitField.read e 21 19).setWidth 64 <<< 21
  | .kb4 => (BitField.read e 12 28).setWidth 64 <<< 12

/-- `entry.present = 0`. -/
def clearPresent (e : PageTableEntry) : PageTableEntry := BitField.write e 0 0#1

@[simp] theorem present_clearPresent (e : PageTableEntry) : (clearPresent e).present = false := by
  rw [present, clearPresent, BitField.getLsbD_write _ _ _ _ (by decide)]
  rfl

@[simp] theorem present_zero : present 0#64 = false := rfl

/-- Clearing the bit of an entry that is not present changes nothing. -/
theorem clearPresent_of_not_present {e : PageTableEntry} (h : e.present = false) :
    clearPresent e = e := by
  refine BitVec.eq_of_getLsbD_eq fun i _ => ?_
  rw [clearPresent, BitField.getLsbD_write _ _ _ _ (by decide)]
  by_cases hi : 0 ≤ i ∧ i < 0 + 1
  · obtain rfl : i = 0 := by omega
    rw [if_pos hi]
    exact h.symm
  · rw [if_neg hi]

end PageTableEntry

open PageTableEntry

/-- `paging_create_entry`: the flags with the address field of the entry's
level and type overwritten. -/
def pagingCreateEntry (baseAddress flags : BitVec 64) (level : PageTableLevel)
    (type : PageTableEntryType) : PageTableEntry :=
  match level with
  | .pml4 => BitField.write flags 12 ((baseAddress >>> 12).setWidth 28)
  | .pdpr =>
    if type = .page then BitField.write flags 30 ((baseAddress >>> 30).setWidth 10)
    else BitField.write flags 12 ((baseAddress >>> 12).setWidth 28)
  | .pd =>
    if type = .page then BitField.write flags 21 ((baseAddress >>> 21).setWidth 19)
    else BitField.write flags 12 ((baseAddress >>> 12).setWidth 28)
  | .pt => BitField.write flags 12 ((baseAddress >>> 12).setWidth 28)

/-- `paging_get_flags_from_entry`: the entry with its address field masked out.
The mask is zero for the one combination that does not exist, a page in the
PML4. -/
def pagingGetFlagsFromEntry (entry : PageTableEntry) (level : PageTableLevel)
    (type : PageTableEntryType) : BitVec 64 :=
  let mask : BitVec 64 :=
    if type = .pointer ∨ level = .pt then ~~~0xfffffff000#64
    else if level = .pdpr then ~~~0xffc0000000#64
    else if level = .pd then ~~~0xffffe00000#64
    else 0#64
  entry &&& mask

/-- Whatever the level and type, an entry is the flags with one field written
at bit 12 or above. -/
theorem pagingCreateEntry_eq_write (b f : BitVec 64) (l : PageTableLevel)
    (t : PageTableEntryType) :
    ∃ (lo w : ℕ) (v : BitVec w), 12 ≤ lo ∧ lo + w ≤ 64 ∧
      pagingCreateEntry b f l t = BitField.write f lo v := by
  cases l <;> cases t <;> exact ⟨_, _, _, by decide, by decide, rfl⟩

/-- The low twelve bits of an entry are those of its flags. -/
theorem getLsbD_pagingCreateEntry (b f : BitVec 64) (l : PageTableLevel)
    (t : PageTableEntryType) {i : ℕ} (hi : i < 12) :
    (pagingCreateEntry b f l t).getLsbD i = f.getLsbD i := by
  obtain ⟨lo, w, v, hlo, hw, he⟩ := pagingCreateEntry_eq_write b f l t
  rw [he, BitField.getLsbD_write_of_lt _ _ hw (by omega)]

/-- An entry is present exactly if its flags say so. -/
@[simp] theorem present_pagingCreateEntry (b f : BitVec 64) (l : PageTableLevel)
    (t : PageTableEntryType) : (pagingCreateEntry b f l t).present = f.getLsbD 0 :=
  getLsbD_pagingCreateEntry b f l t (by decide)

/-- An entry is a large page exactly if its flags say so. -/
@[simp] theorem pageSize_pagingCreateEntry (b f : BitVec 64) (l : PageTableLevel)
    (t : PageTableEntryType) : (pagingCreateEntry b f l t).pageSize = f.getLsbD 7 :=
  getLsbD_pagingCreateEntry b f l t (by decide)

/-! ## Indices of a virtual address -/

/-- `(virt >> 39) & 0x1ff`. -/
def pml4Idx (virt : BitVec 64) : TableIndex := ((virt >>> 39) &&& 0x1ff#64).setWidth 9

/-- `(virt >> 30) & 0x1ff`. -/
def pdprIdx (virt : BitVec 64) : TableIndex := ((virt >>> 30) &&& 0x1ff#64).setWidth 9

/-- `(virt >> 21) & 0x1ff`. -/
def pdIdx (virt : BitVec 64) : TableIndex := ((virt >>> 21) &&& 0x1ff#64).setWidth 9

/-- `(virt >> 12) & 0x1ff`. -/
def ptIdx (virt : BitVec 64) : TableIndex := ((virt >>> 12) &&& 0x1ff#64).setWidth 9

/-- `paging_get_virt_address_from_indices`: the sign extension is that of bit 8
of the PML4 index, bit 47 of the address. -/
def pagingGetVirtAddressFromIndices (pml4Idx pdprIdx pdIdx ptIdx : TableIndex) : BitVec 64 :=
  let signExtension : BitVec 64 := if pml4Idx.setWidth 64 >>> 8 = 1#64 then 0xffff#64 else 0#64
  signExtension <<< 48 ||| pml4Idx.setWidth 64 <<< 39 ||| pdprIdx.setWidth 64 <<< 30
    ||| pdIdx.setWidth 64 <<< 21 ||| ptIdx.setWidth 64 <<< 12

/-- The mask of nine ones keeps nine bits. -/
theorem getLsbD_index (v : BitVec 64) (s i : ℕ) :
    (((v >>> s) &&& 0x1ff#64).setWidth 9 : TableIndex).getLsbD i
      = (decide (i < 9) && v.getLsbD (s + i)) := by
  by_cases hi : i < 9
  · have hmask : (0x1ff#64).getLsbD i = true := by interval_cases i <;> rfl
    rw [BitVec.getLsbD_setWidth, BitVec.getLsbD_and, BitVec.getLsbD_ushiftRight, hmask]
    simp [hi]
  · rw [BitVec.getLsbD_setWidth]
    simp [hi]

/-- The test of bit 8 of an index. -/
theorem setWidth_ushiftRight_eight_eq_iff (a : TableIndex) :
    a.setWidth 64 >>> 8 = 1#64 ↔ a.getLsbD 8 = true := by
  constructor
  · intro h
    have h0 := congrArg (fun x => BitVec.getLsbD x 0) h
    simpa using h0
  · intro h
    refine BitVec.eq_of_getLsbD_eq fun j hj => ?_
    rw [BitVec.getLsbD_ushiftRight, BitVec.getLsbD_setWidth]
    by_cases hj0 : j = 0
    · subst hj0
      simp [h]
    · have hge : a.getLsbD (8 + j) = false := BitVec.getLsbD_of_ge _ _ (by omega)
      simp [hge, hj0]

/-- The sign extension repeats bit 8 from bit 48 on. -/
theorem getLsbD_signExtension (a : TableIndex) {i : ℕ} (hi : i < 64) :
    ((if a.setWidth 64 >>> 8 = 1#64 then 0xffff#64 else 0#64) <<< 48).getLsbD i
      = (decide (48 ≤ i) && a.getLsbD 8) := by
  have hones : (if a.setWidth 64 >>> 8 = 1#64 then 0xffff#64 else 0#64)
      = (if a.setWidth 64 >>> 8 = 1#64 then BitVec.allOnes 16 else 0#16).setWidth 64 := by
    split <;> rfl
  have hlt : i - 48 < 16 := by omega
  rw [hones, BitField.getLsbD_setWidth_shiftLeft _ (by decide)]
  congr 1
  by_cases h : a.setWidth 64 >>> 8 = 1#64
  · rw [if_pos h, BitVec.getLsbD_allOnes, decide_eq_true hlt]
    exact ((setWidth_ushiftRight_eight_eq_iff a).mp h).symm
  · rw [if_neg h, BitVec.getLsbD_zero]
    exact (Bool.eq_false_iff.mpr (mt (setWidth_ushiftRight_eight_eq_iff a).mpr h)).symm

/-- **The assembled address bit by bit.** -/
theorem getLsbD_pagingGetVirtAddressFromIndices (a b c d : TableIndex) {i : ℕ} (hi : i < 64) :
    (pagingGetVirtAddressFromIndices a b c d).getLsbD i
      = if 48 ≤ i then a.getLsbD 8 else if 39 ≤ i then a.getLsbD (i - 39)
        else if 30 ≤ i then b.getLsbD (i - 30) else if 21 ≤ i then c.getLsbD (i - 21)
        else if 12 ≤ i then d.getLsbD (i - 12) else false := by
  -- Above its nine bits an index is zero, so one of the five parts is left in each range.
  have hzero : ∀ (x : TableIndex) lo, lo + 9 ≤ i → x.getLsbD (i - lo) = false :=
    fun x lo h => BitVec.getLsbD_of_ge _ _ (by omega)
  unfold pagingGetVirtAddressFromIndices
  simp only [BitVec.getLsbD_or, getLsbD_signExtension a hi]
  rw [BitField.getLsbD_setWidth_shiftLeft _ (by decide),
    BitField.getLsbD_setWidth_shiftLeft _ (by decide),
    BitField.getLsbD_setWidth_shiftLeft _ (by decide),
    BitField.getLsbD_setWidth_shiftLeft _ (by decide)]
  by_cases h48 : 48 ≤ i
  · simp [h48, hzero a 39 (by omega), hzero b 30 (by omega), hzero c 21 (by omega),
      hzero d 12 (by omega)]
  by_cases h39 : 39 ≤ i
  · simp [h48, h39, hzero b 30 (by omega), hzero c 21 (by omega), hzero d 12 (by omega)]
  by_cases h30 : 30 ≤ i
  · simp [h48, h39, h30, hzero c 21 (by omega), hzero d 12 (by omega)]
  by_cases h21 : 21 ≤ i
  · simp [h48, h39, h30, h21, hzero d 12 (by omega)]
  · simp [h48, h39, h30, h21]

/-- The index read at bit `s` of two addresses is the same exactly if the nine
bits are. -/
theorem index_eq_iff (u v : BitVec 64) (s : ℕ) :
    (((u >>> s) &&& 0x1ff#64).setWidth 9 : TableIndex) = ((v >>> s) &&& 0x1ff#64).setWidth 9
      ↔ ∀ i, s ≤ i → i < s + 9 → u.getLsbD i = v.getLsbD i := by
  constructor
  · intro h i hlo hhi
    have hbit := congrArg (fun x => BitVec.getLsbD x (i - s)) h
    simp only [getLsbD_index, Nat.add_sub_cancel' hlo] at hbit
    simpa [show i - s < 9 by omega] using hbit
  · intro h
    refine BitVec.eq_of_getLsbD_eq fun i hi => ?_
    rw [getLsbD_index, getLsbD_index, h (s + i) (by omega) (by omega)]

/-- The assembled address has the indices it was assembled from. -/
theorem pml4Idx_assembled (a b c d : TableIndex) :
    pml4Idx (pagingGetVirtAddressFromIndices a b c d) = a := by
  refine BitVec.eq_of_getLsbD_eq fun i hi => ?_
  rw [pml4Idx, getLsbD_index, getLsbD_pagingGetVirtAddressFromIndices _ _ _ _ (by omega),
    if_neg (by omega), if_pos (by omega), Nat.add_sub_cancel_left]
  simp [hi]

theorem pdprIdx_assembled (a b c d : TableIndex) :
    pdprIdx (pagingGetVirtAddressFromIndices a b c d) = b := by
  refine BitVec.eq_of_getLsbD_eq fun i hi => ?_
  rw [pdprIdx, getLsbD_index, getLsbD_pagingGetVirtAddressFromIndices _ _ _ _ (by omega),
    if_neg (by omega), if_neg (by omega), if_pos (by omega), Nat.add_sub_cancel_left]
  simp [hi]

theorem pdIdx_assembled (a b c d : TableIndex) :
    pdIdx (pagingGetVirtAddressFromIndices a b c d) = c := by
  refine BitVec.eq_of_getLsbD_eq fun i hi => ?_
  rw [pdIdx, getLsbD_index, getLsbD_pagingGetVirtAddressFromIndices _ _ _ _ (by omega),
    if_neg (by omega), if_neg (by omega), if_neg (by omega), if_pos (by omega),
    Nat.add_sub_cancel_left]
  simp [hi]

theorem ptIdx_assembled (a b c d : TableIndex) :
    ptIdx (pagingGetVirtAddressFromIndices a b c d) = d := by
  refine BitVec.eq_of_getLsbD_eq fun i hi => ?_
  rw [ptIdx, getLsbD_index, getLsbD_pagingGetVirtAddressFromIndices _ _ _ _ (by omega),
    if_neg (by omega), if_neg (by omega), if_neg (by omega), if_neg (by omega),
    if_pos (by omega), Nat.add_sub_cancel_left]
  simp [hi]

/-! ## Canonical addresses and the paths of pages -/

/-- **A canonical address**: bits 48 to 63 repeat bit 47. -/
def Canonical (v : BitVec 64) : Prop := (v.setWidth 48).signExtend 64 = v

instance (v : BitVec 64) : Decidable (Canonical v) := inferInstanceAs (Decidable (_ = _))

theorem canonical_iff (v : BitVec 64) :
    Canonical v ↔ ∀ i, 48 ≤ i → i < 64 → v.getLsbD i = v.getLsbD 47 := by
  have hbit : ∀ i < 64, ((v.setWidth 48).signExtend 64).getLsbD i
      = if i < 48 then v.getLsbD i else v.getLsbD 47 := by
    intro i hi
    rw [BitVec.getLsbD_signExtend, BitVec.msb_setWidth]
    by_cases hlt : i < 48
    · simp [hlt, hi]
    · simp [hlt, hi]
  constructor
  · intro h i h48 hi
    have hi' := hbit i hi
    rwa [h, if_neg (by omega)] at hi'
  · intro h
    refine BitVec.eq_of_getLsbD_eq fun i hi => ?_
    rw [hbit i hi]
    by_cases hlt : i < 48
    · rw [if_pos hlt]
    · rw [if_neg hlt, h i (by omega) hi]

/-- An assembled address is canonical. -/
theorem canonical_assembled (a b c d : TableIndex) :
    Canonical (pagingGetVirtAddressFromIndices a b c d) := by
  rw [canonical_iff]
  intro i h48 hi
  rw [getLsbD_pagingGetVirtAddressFromIndices _ _ _ _ hi, if_pos h48,
    getLsbD_pagingGetVirtAddressFromIndices _ _ _ _ (by decide), if_neg (by decide),
    if_pos (by decide)]

/-- **The path of a page**: the indices a walk uses for the page of the given
size at a virtual address, root first. -/
def pagePath (size : PageSize) (virt : BitVec 64) : List TableIndex :=
  match size with
  | .gb1 => [pml4Idx virt, pdprIdx virt]
  | .mb2 => [pml4Idx virt, pdprIdx virt, pdIdx virt]
  | .kb4 => [pml4Idx virt, pdprIdx virt, pdIdx virt, ptIdx virt]

/-- The number of indices on the path of a page, one more than the depth of
the table its leaf is in. -/
def PageSize.pathLength : PageSize → ℕ
  | .gb1 => 2
  | .mb2 => 3
  | .kb4 => 4

@[simp] theorem length_pagePath (size : PageSize) (virt : BitVec 64) :
    (pagePath size virt).length = size.pathLength := by
  cases size <;> rfl

theorem pagePath_ne_nil (size : PageSize) (virt : BitVec 64) : pagePath size virt ≠ [] := by
  cases size <;> exact List.cons_ne_nil _ _

/-- Every path of the right length is the path of a page at a canonical
address. -/
theorem exists_pagePath_eq {size : PageSize} {p : List TableIndex}
    (hp : p.length = size.pathLength) : ∃ v, Canonical v ∧ pagePath size v = p := by
  cases size with
  | gb1 =>
    obtain ⟨a, b, rfl⟩ := List.length_eq_two.mp hp
    refine ⟨_, canonical_assembled a b 0 0, ?_⟩
    rw [pagePath, pml4Idx_assembled, pdprIdx_assembled]
  | mb2 =>
    obtain ⟨a, b, c, rfl⟩ := List.length_eq_three.mp hp
    refine ⟨_, canonical_assembled a b c 0, ?_⟩
    rw [pagePath, pml4Idx_assembled, pdprIdx_assembled, pdIdx_assembled]
  | kb4 =>
    obtain ⟨a, q, rfl⟩ := List.exists_cons_of_length_eq_add_one hp
    obtain ⟨b, c, d, rfl⟩ := List.length_eq_three.mp (Nat.succ.inj hp)
    refine ⟨_, canonical_assembled a b c d, ?_⟩
    rw [pagePath, pml4Idx_assembled, pdprIdx_assembled, pdIdx_assembled, ptIdx_assembled]

/-- Two paths agree exactly if the addresses agree on the bits they read. -/
theorem pagePath_eq_iff_bits (size : PageSize) (u v : BitVec 64) :
    pagePath size u = pagePath size v
      ↔ ∀ i, size.shift ≤ i → i < 48 → u.getLsbD i = v.getLsbD i := by
  have hpath : pagePath size u = pagePath size v ↔
      (∀ i, 39 ≤ i → i < 48 → u.getLsbD i = v.getLsbD i) ∧
      (∀ i, 30 ≤ i → i < 39 → u.getLsbD i = v.getLsbD i) ∧
      (size.shift ≤ 21 → ∀ i, 21 ≤ i → i < 30 → u.getLsbD i = v.getLsbD i) ∧
      (size.shift ≤ 12 → ∀ i, 12 ≤ i → i < 21 → u.getLsbD i = v.getLsbD i) := by
    cases size <;>
      simp only [pagePath, List.cons.injEq, pml4Idx, pdprIdx, pdIdx, ptIdx, index_eq_iff,
        PageSize.shift] <;> simp
  rw [hpath]
  constructor
  · rintro ⟨h₁, h₂, h₃, h₄⟩ i hlo hhi
    rcases size with _ | _ | _ <;> simp only [PageSize.shift] at hlo h₃ h₄
    · rcases Nat.lt_or_ge i 21 with h | h
      · exact h₄ le_rfl i hlo h
      rcases Nat.lt_or_ge i 30 with h' | h'
      · exact h₃ (by decide) i h h'
      rcases Nat.lt_or_ge i 39 with h'' | h''
      · exact h₂ i h' h''
      · exact h₁ i h'' hhi
    · rcases Nat.lt_or_ge i 30 with h' | h'
      · exact h₃ le_rfl i hlo h'
      rcases Nat.lt_or_ge i 39 with h'' | h''
      · exact h₂ i h' h''
      · exact h₁ i h'' hhi
    · rcases Nat.lt_or_ge i 39 with h'' | h''
      · exact h₂ i hlo h''
      · exact h₁ i h'' hhi
  · intro h
    have hs := size.shift_le
    exact ⟨fun i h₁ h₂ => h i (by omega) (by omega), fun i h₁ h₂ => h i (by omega) (by omega),
      fun hle i h₁ h₂ => h i (by omega) (by omega), fun hle i h₁ h₂ => h i (by omega) (by omega)⟩

/-- **The path of a canonical address is its page number**: two canonical
addresses lie in the same page of a size exactly if they have the same path. -/
theorem pagePath_eq_iff {size : PageSize} {u v : BitVec 64} (hu : Canonical u) (hv : Canonical v) :
    pagePath size u = pagePath size v ↔ u >>> size.shift = v >>> size.shift := by
  have hs := size.shift_le
  rw [pagePath_eq_iff_bits]
  constructor
  · intro h
    refine BitVec.eq_of_getLsbD_eq fun i hi => ?_
    rw [BitVec.getLsbD_ushiftRight, BitVec.getLsbD_ushiftRight]
    rcases Nat.lt_or_ge (size.shift + i) 48 with h48 | h48
    · exact h _ (by omega) h48
    rcases Nat.lt_or_ge (size.shift + i) 64 with h64 | h64
    · rw [(canonical_iff u).mp hu _ h48 h64, (canonical_iff v).mp hv _ h48 h64]
      exact h 47 (by omega) (by decide)
    · rw [BitVec.getLsbD_of_ge _ _ h64, BitVec.getLsbD_of_ge _ _ h64]
  · intro h i hlo hhi
    have hbit := congrArg (fun x => BitVec.getLsbD x (i - size.shift)) h
    simpa only [BitVec.getLsbD_ushiftRight, Nat.add_sub_cancel' hlo] using hbit
