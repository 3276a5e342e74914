import Mathlib.Data.BitVec
import Mathlib.Tactic.IntervalCases

/-!
# Bit fields of a machine word

A packed C bit field is a window of a word: `read` takes it out and `write`
puts it in, leaving the bits around it alone. Both are described bit by bit
(`getLsbD_read`, `getLsbD_write`), and every fact about a field – what is
written is read back, a field written next to another does not disturb it, a
field written with what it already holds changes nothing – follows from those
two.
-/

namespace BitField

variable {n w : ℕ}

/-- The field of width `w` that starts at bit `lo`. -/
def read (x : BitVec n) (lo w : ℕ) : BitVec w := x.extractLsb' lo w

/-- The word with the field of width `w` that starts at bit `lo` set to `v`. -/
def write (x : BitVec n) (lo : ℕ) (v : BitVec w) : BitVec n :=
  (x &&& ~~~((BitVec.allOnes w).setWidth n <<< lo)) ||| (v.setWidth n <<< lo)

@[simp] theorem getLsbD_read (x : BitVec n) (lo w i : ℕ) :
    (read x lo w).getLsbD i = (decide (i < w) && x.getLsbD (lo + i)) := by
  rw [read, BitVec.getLsbD_extractLsb']

/-- **A written word bit by bit**: the field's bits inside the window, the old
bits outside it. -/
theorem getLsbD_write (x : BitVec n) (lo : ℕ) (v : BitVec w) (i : ℕ) (h : lo + w ≤ n) :
    (write x lo v).getLsbD i
      = if lo ≤ i ∧ i < lo + w then v.getLsbD (i - lo) else x.getLsbD i := by
  by_cases hn : i < n
  · by_cases hlo : lo ≤ i
    · have hge : ¬ i < lo := by omega
      by_cases hhi : i < lo + w
      · have hin : i - lo < w := by omega
        simp [write, hlo, hhi, hn, hge, hin]
      · have hout : ¬ i - lo < w := by omega
        have hv : v.getLsbD (i - lo) = false := BitVec.getLsbD_of_ge _ _ (by omega)
        simp [write, hlo, hhi, hn, hge, hout, hv]
    · have hlt : i < lo := by omega
      simp [write, hlo, hn, hlt]
  · rw [BitVec.getLsbD_of_ge _ _ (by omega), if_neg (by omega),
      BitVec.getLsbD_of_ge _ _ (by omega)]

/-- What is written is read back. -/
@[simp] theorem read_write (x : BitVec n) (lo : ℕ) (v : BitVec w) (h : lo + w ≤ n) :
    read (write x lo v) lo w = v := by
  refine BitVec.eq_of_getLsbD_eq fun i hi => ?_
  rw [getLsbD_read, getLsbD_write _ _ _ _ h, if_pos (by omega), Nat.add_sub_cancel_left]
  simp [hi]

/-- A field written leaves every bit outside it alone. -/
theorem getLsbD_write_of_lt (x : BitVec n) {lo : ℕ} (v : BitVec w) {i : ℕ} (h : lo + w ≤ n)
    (hi : i < lo) : (write x lo v).getLsbD i = x.getLsbD i := by
  rw [getLsbD_write _ _ _ _ h, if_neg (by omega)]

/-- **Writing what is there changes nothing**, even if the field was masked out
first: the mask `k` is one exactly on the window. -/
theorem write_and_not_read (x k : BitVec n) (lo : ℕ) (h : lo + w ≤ n)
    (hk : ∀ i < n, k.getLsbD i = decide (lo ≤ i ∧ i < lo + w)) :
    write (x &&& ~~~k) lo (read x lo w) = x := by
  refine BitVec.eq_of_getLsbD_eq fun i hi => ?_
  rw [getLsbD_write _ _ _ _ h]
  by_cases hin : lo ≤ i ∧ i < lo + w
  · rw [if_pos hin, getLsbD_read, Nat.add_sub_cancel' hin.1]
    have hlt : i - lo < w := by omega
    simp [hlt]
  · rw [if_neg hin, BitVec.getLsbD_and, BitVec.getLsbD_not, hk i hi]
    simp [hin, hi]

/-- **A field shifted back into place** is the word again, when the word has no
bit outside the window. -/
theorem read_setWidth_shiftLeft (x : BitVec n) (lo : ℕ) (h : lo + w ≤ n)
    (hx : ∀ i < n, x.getLsbD i = true → lo ≤ i ∧ i < lo + w) :
    ((x >>> lo).setWidth w).setWidth n <<< lo = x := by
  refine BitVec.eq_of_getLsbD_eq fun i hi => ?_
  rw [BitVec.getLsbD_shiftLeft, BitVec.getLsbD_setWidth, BitVec.getLsbD_setWidth,
    BitVec.getLsbD_ushiftRight]
  by_cases hin : lo ≤ i ∧ i < lo + w
  · have h₁ : ¬ i < lo := by omega
    have h₂ : i - lo < n := by omega
    have h₃ : i - lo < w := by omega
    rw [Nat.add_sub_cancel' hin.1]
    simp [hi, h₁, h₂, h₃]
  · have hoff : x.getLsbD i = false := by
      by_contra hne
      exact hin (hx i hi (by simpa using hne))
    by_cases hlo : i < lo
    · simp [hlo, hoff]
    · have h₃ : ¬ i - lo < w := by omega
      simp [h₃, hoff]

/-- A field moved into place, bit by bit. -/
theorem getLsbD_setWidth_shiftLeft (v : BitVec w) {lo : ℕ} (h : lo + w ≤ n) (i : ℕ) :
    (v.setWidth n <<< lo).getLsbD i = (decide (lo ≤ i) && v.getLsbD (i - lo)) := by
  by_cases hi : lo ≤ i ∧ i < lo + w
  · have hn : i < n := by omega
    simp [hi, hn]
  · by_cases hlo : lo ≤ i
    · have hv : v.getLsbD (i - lo) = false := BitVec.getLsbD_of_ge _ _ (by omega)
      simp [hlo, hv]
    · simp [hlo]

/-- A field taken out, moved into place and shifted back is the field. -/
theorem setWidth_shiftLeft_shiftRight (v : BitVec w) (lo : ℕ) (h : lo + w ≤ n) :
    ((v.setWidth n <<< lo) >>> lo).setWidth w = v := by
  refine BitVec.eq_of_getLsbD_eq fun i hi => ?_
  have h₁ : lo + i < n := by omega
  have h₂ : i < n := by omega
  rw [BitVec.getLsbD_setWidth, BitVec.getLsbD_ushiftRight, BitVec.getLsbD_shiftLeft,
    BitVec.getLsbD_setWidth, Nat.add_sub_cancel_left]
  simp [hi, h₁, h₂]

/-- **A field of two words side by side** that lies in the lower one. -/
theorem read_append_of_le {m : ℕ} (x : BitVec n) (y : BitVec m) {lo : ℕ} (h : lo + w ≤ m) :
    read (x ++ y) lo w = read y lo w := BitVec.extractLsb'_append_eq_of_add_le h

/-- And one that lies in the higher one. -/
theorem read_append_of_ge {m : ℕ} (x : BitVec n) (y : BitVec m) {lo : ℕ} (h : m ≤ lo) :
    read (x ++ y) lo w = read x (lo - m) w := BitVec.extractLsb'_append_eq_of_le h

/-- The field that is the whole word. -/
@[simp] theorem read_zero (x : BitVec n) : read x 0 n = x := BitVec.extractLsb'_eq_self

/-- A word split in two fields. -/
theorem read_append_read {v : ℕ} (x : BitVec n) (lo : ℕ) :
    read x (lo + w) v ++ read x lo w = read x lo (v + w) :=
  BitVec.extractLsb'_append_extractLsb'_eq_extractLsb' rfl

end BitField
