import Joes.BitField
import Mathlib.Data.List.Nodup

/-!
# Layouts of packed bit fields

A packed structure of bit fields divides a word from its lowest bit on: each field
has a name and a width, and lies behind those before it. A `BitLayout` is the list
of the names and widths, and where a field lies is computed from it (`offset`,
`width`), so that a layout is compared with its source by reading it.

`get` and `set` are reading and assigning to a field, and `mask` has its bits. The
fields do not overlap (`get_set_of_ne`); what is set is read (`get_set`); a word
divides into a field and what is outside the mask, and is put together from the two
(`set_get`, `set_and_not_mask`, `and_not_mask_eq_iff`).
-/

/-- **A layout**: the names and widths of the fields, from the lowest bit on. -/
abbrev BitLayout (ι : Type*) := List (ι × ℕ)

namespace BitLayout

variable {ι : Type*} [DecidableEq ι]

/-- The bits of all fields. -/
def size : BitLayout ι → ℕ
  | [] => 0
  | (_, w) :: l => w + size l

/-- The bit at which a field starts. -/
def offset : BitLayout ι → ι → ℕ
  | [], _ => 0
  | (g, w) :: l, f => if g = f then 0 else w + offset l f

/-- The width of a field. A name that is not there has none. -/
def width : BitLayout ι → ι → ℕ
  | [], _ => 0
  | (g, w) :: l, f => if g = f then w else width l f

variable (l : BitLayout ι) {f g : ι} {n : ℕ}

/-- A field lies in the layout. -/
theorem offset_add_width_le (f : ι) : offset l f + width l f ≤ size l := by
  induction l with
  | nil => exact le_rfl
  | cons p l ih =>
    obtain ⟨g, w⟩ := p
    unfold offset width size
    split <;> omega

/-- **Fields do not overlap**: of two of them one lies behind the other. -/
theorem offset_add_width_le_or (h : f ≠ g) :
    offset l f + width l f ≤ offset l g ∨ offset l g + width l g ≤ offset l f := by
  induction l with
  | nil => exact .inl le_rfl
  | cons p l ih =>
    obtain ⟨k, w⟩ := p
    unfold offset width
    by_cases hf : k = f
    · have hg : k ≠ g := fun hg => h (hf.symm.trans hg)
      rw [if_pos hf, if_pos hf, if_neg hg, if_neg hg]
      omega
    · rw [if_neg hf, if_neg hf]
      split <;> omega

/-- The value of a field. -/
def get (f : ι) (x : BitVec n) : BitVec (width l f) := BitField.read x (offset l f) (width l f)

/-- The word with a value assigned to a field. -/
def set (f : ι) (x : BitVec n) (v : BitVec (width l f)) : BitVec n :=
  BitField.write x (offset l f) v

/-- The bits of a field. -/
def mask (f : ι) (n : ℕ) : BitVec n := (BitVec.allOnes (width l f)).setWidth n <<< offset l f

theorem getLsbD_mask {i : ℕ} (hi : i < n) :
    (mask l f n).getLsbD i = decide (offset l f ≤ i ∧ i < offset l f + width l f) := by
  unfold mask
  rw [BitVec.getLsbD_shiftLeft, BitVec.getLsbD_setWidth, BitVec.getLsbD_allOnes, Bool.eq_iff_iff]
  simp only [Bool.and_eq_true, Bool.not_eq_true', decide_eq_true_eq, decide_eq_false_iff_not]
  omega

section Word

variable {l} (hl : size l ≤ n)

include hl

/-- What is set is read. -/
@[simp] theorem get_set (x : BitVec n) (v : BitVec (width l f)) : get l f (set l f x v) = v :=
  BitField.read_write x _ v ((offset_add_width_le l f).trans hl)

/-- **A field that is set leaves the others alone.** -/
theorem get_set_of_ne (h : f ≠ g) (x : BitVec n) (v : BitVec (width l f)) :
    get l g (set l f x v) = get l g x := by
  have hle := (offset_add_width_le l f).trans hl
  have hdisjoint := offset_add_width_le_or l h
  refine BitVec.eq_of_getLsbD_eq fun i hi => ?_
  unfold get set
  rw [BitField.getLsbD_read, BitField.getLsbD_read, BitField.getLsbD_write _ _ _ _ hle,
    if_neg (by omega)]

/-- A word is put together from a field and what is outside it. -/
theorem set_get (x : BitVec n) : set l f (x &&& ~~~mask l f n) (get l f x) = x :=
  BitField.write_and_not_read x _ _ ((offset_add_width_le l f).trans hl)
    fun _ hi => getLsbD_mask l hi

/-- What is outside a field does not change when it is set. -/
theorem set_and_not_mask (x : BitVec n) (v : BitVec (width l f)) :
    set l f x v &&& ~~~mask l f n = x &&& ~~~mask l f n := by
  have hle := (offset_add_width_le l f).trans hl
  refine BitVec.eq_of_getLsbD_eq fun i hi => ?_
  rw [BitVec.getLsbD_and, BitVec.getLsbD_and, BitVec.getLsbD_not, getLsbD_mask l hi, set,
    BitField.getLsbD_write _ _ _ _ hle]
  by_cases hin : offset l f ≤ i ∧ i < offset l f + width l f
  · simp [hin]
  · rw [if_neg hin]

/-- A word is outside of a field exactly if that is zero in it. -/
theorem and_not_mask_eq_iff (x : BitVec n) : x &&& ~~~mask l f n = x ↔ get l f x = 0 := by
  have hle := (offset_add_width_le l f).trans hl
  constructor
  · intro h
    refine BitVec.eq_of_getLsbD_eq fun i hi => ?_
    have hin : offset l f + i < n := by omega
    have hmask := getLsbD_mask (f := f) l hin
    rw [decide_eq_true ⟨Nat.le_add_right _ _, Nat.add_lt_add_left hi _⟩] at hmask
    rw [get, BitField.getLsbD_read, ← h, BitVec.getLsbD_and, BitVec.getLsbD_not, hmask]
    simp
  · intro h
    refine BitVec.eq_of_getLsbD_eq fun i hi => ?_
    rw [BitVec.getLsbD_and, BitVec.getLsbD_not, getLsbD_mask l hi]
    by_cases hin : offset l f ≤ i ∧ i < offset l f + width l f
    · have hwidth : i - offset l f < width l f := by omega
      have hbit : (get l f x).getLsbD (i - offset l f) = x.getLsbD i := by
        rw [get, BitField.getLsbD_read, Nat.add_sub_cancel' hin.1, decide_eq_true hwidth,
          Bool.true_and]
      rw [← hbit, h]
      simp
    · simp [hin, hi]

end Word

end BitLayout
