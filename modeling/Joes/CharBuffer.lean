import Mathlib.Algebra.Group.Nat.Defs
import Mathlib.Data.List.GetD
import Mathlib.Order.Nat

/-!
# Strings in memory

A pointer to characters is taken for what it points to: the character at each
offset from it. Offsets are of 64 bits and wrap around, so a loop that runs past
the end of a string, or below its start, reads and writes somewhere in a
`CharBuffer` too.

`Holds` says that a buffer starts with a string and the character 0 that ends
it. It is what the functions on strings rely on and what they restore, and the
rest of this file is about the buffers they make: those overwritten from their
start on, and those with a part reversed.
-/

/-- The characters behind a pointer. -/
abbrev CharBuffer := BitVec 64 → BitVec 8

namespace CharBuffer

variable {str : CharBuffer} {s : List (BitVec 8)} {c : BitVec 8}

/-- A number of characters from an offset on. -/
def chars (str : CharBuffer) : ℕ → BitVec 64 → List (BitVec 8)
  | 0, _ => []
  | n + 1, i => str i :: str.chars n (i + 1#64)

/-- **A buffer holds a string**, which is ended by the first 0 in it. -/
structure Holds (str : CharBuffer) (s : List (BitVec 8)) : Prop where
  length_lt : s.length < 2 ^ 64
  zero_notMem : 0#8 ∉ s
  read : ∀ k ≤ s.length, str (BitVec.ofNat 64 k) = s.getD k 0#8

theorem ofNat_succ (k : ℕ) : BitVec.ofNat 64 k + 1#64 = BitVec.ofNat 64 (k + 1) := by
  rw [BitVec.ofNat_add]

namespace Holds

theorem read_lt (h : str.Holds s) {k : ℕ} (hk : k < s.length) :
    str (BitVec.ofNat 64 k) = s[k] := by
  rw [h.read k hk.le, List.getD_eq_getElem _ _ hk]

theorem ne_zero (h : str.Holds s) {k : ℕ} (hk : k < s.length) :
    str (BitVec.ofNat 64 k) ≠ 0#8 := by
  rw [h.read_lt hk]
  exact fun hzero => h.zero_notMem (hzero ▸ List.getElem_mem hk)

theorem read_length (h : str.Holds s) : str (BitVec.ofNat 64 s.length) = 0#8 := by
  rw [h.read _ le_rfl, List.getD_eq_default _ _ le_rfl]

/-- What is left of the string at an offset. -/
theorem chars_drop (h : str.Holds s) {k n : ℕ} (hk : k + n = s.length) :
    str.chars n (BitVec.ofNat 64 k) = s.drop k := by
  induction n generalizing k with
  | zero => rw [chars, List.drop_eq_nil_of_le (show s.length ≤ k from hk.ge)]
  | succ n ih =>
    have hlt : k < s.length := by omega
    rw [chars, ofNat_succ, ih (by omega), h.read_lt hlt, List.drop_eq_getElem_cons hlt]

/-- The characters of the string are its characters. -/
theorem chars_eq (h : str.Holds s) : str.chars s.length 0#64 = s := by
  have hdrop := h.chars_drop (Nat.zero_add s.length)
  rwa [List.drop_zero] at hdrop

theorem toNat_length (h : str.Holds s) : (BitVec.ofNat 64 s.length).toNat = s.length := by
  rw [BitVec.toNat_ofNat, Nat.mod_eq_of_lt h.length_lt]

/-- What is read up to the first 0 is a string. -/
theorem of_first_zero {n : ℕ} (hn : n < 2 ^ 64) (hzero : str (BitVec.ofNat 64 n) = 0#8)
    (hne : ∀ k < n, str (BitVec.ofNat 64 k) ≠ 0#8) :
    str.Holds ((List.range n).map fun k => str (BitVec.ofNat 64 k)) where
  length_lt := by rwa [List.length_map, List.length_range]
  zero_notMem hmem := by
    obtain ⟨k, hk, hread⟩ := List.mem_map.mp hmem
    exact hne k (List.mem_range.mp hk) hread
  read k hk := by
    rw [List.length_map, List.length_range] at hk
    rcases Nat.lt_or_eq_of_le hk with hlt | rfl
    · rw [List.getD_eq_getElem _ _ (by rwa [List.length_map, List.length_range]),
        List.getElem_map, List.getElem_range]
    · rw [hzero, List.getD_eq_default _ _ (by rw [List.length_map, List.length_range])]

end Holds

/-- The buffer overwritten with characters from its start on. -/
def write (str : CharBuffer) (s : List (BitVec 8)) : CharBuffer := fun i => s.getD i.toNat (str i)

/-- One more character is written. -/
theorem update_write (hs : s.length < 2 ^ 64) :
    Function.update (str.write s) (BitVec.ofNat 64 s.length) c = str.write (s ++ [c]) := by
  funext i
  have htoNat : (BitVec.ofNat 64 s.length).toNat = s.length := by
    rw [BitVec.toNat_ofNat, Nat.mod_eq_of_lt hs]
  unfold write
  by_cases hi : i = BitVec.ofNat 64 s.length
  · rw [hi, Function.update_self, htoNat]
    simp
  · have hne : i.toNat ≠ s.length := fun h => hi (BitVec.eq_of_toNat_eq (h.trans htoNat.symm))
    rw [Function.update_of_ne hi]
    rcases Nat.lt_or_gt_of_ne hne with hlt | hgt
    · rw [List.getD_append _ _ _ _ hlt]
    · rw [List.getD_eq_default _ _ hgt.le, List.getD_eq_default]
      rw [List.length_append]
      exact hgt

/-- Characters that were written with a 0 after them are read. -/
theorem read_write (hs : s.length < 2 ^ 64) {k : ℕ} (hk : k ≤ s.length) :
    str.write (s ++ [0#8]) (BitVec.ofNat 64 k) = s.getD k 0#8 := by
  have hlt : k < 2 ^ 64 := by omega
  rw [write, BitVec.toNat_ofNat, Nat.mod_eq_of_lt hlt]
  rcases Nat.lt_or_eq_of_le hk with hk | rfl
  · rw [List.getD_append _ _ _ _ hk, List.getD_eq_getElem _ _ hk, List.getD_eq_getElem _ _ hk]
  · simp

/-- A string that was written with a 0 after it is held. -/
theorem holds_write (hs : s.length < 2 ^ 64) (hzero : 0#8 ∉ s) :
    (str.write (s ++ [0#8])).Holds s where
  length_lt := hs
  zero_notMem := hzero
  read _ hk := read_write hs hk

/-- The buffer with the characters from one offset to another in reverse order. -/
def reversed (str : CharBuffer) (i j : BitVec 64) : CharBuffer := fun k =>
  if i ≤ k ∧ k ≤ j then str (i + j - k) else str k

/-- Where there is nothing between the two offsets, nothing is reversed. -/
theorem reversed_of_le {i j : BitVec 64} (h : j ≤ i) : str.reversed i j = str := by
  funext k
  unfold reversed
  split
  · next hk =>
    have hik : i + j - k = k := by
      have hi := hk.1
      have hj := hk.2
      bv_omega
    rw [hik]
  · rfl

/-- What is reversed twice is as it was. -/
theorem reversed_reversed (str : CharBuffer) (i j : BitVec 64) :
    (str.reversed i j).reversed i j = str := by
  funext k
  unfold reversed
  by_cases hk : i ≤ k ∧ k ≤ j
  · obtain ⟨hik, hkj⟩ := id hk
    have hin : i ≤ i + j - k ∧ i + j - k ≤ j := by
      constructor <;> bv_omega
    have hback : i + j - (i + j - k) = k := by bv_omega
    rw [if_pos hk, if_pos hin, hback]
  · rw [if_neg hk, if_neg hk]

/-- Two characters are swapped, and then those between them are reversed. -/
theorem reversed_swap {i j : BitVec 64} (h : i < j) :
    CharBuffer.reversed (Function.update (Function.update str i (str j)) j (str i))
      (i + 1#64) (j - 1#64) = str.reversed i j := by
  funext k
  unfold reversed
  have hsum : i + 1#64 + (j - 1#64) - k = i + j - k := by bv_omega
  rw [hsum]
  by_cases hi : k = i
  · have hout : ¬ (i + 1#64 ≤ k ∧ k ≤ j - 1#64) := by bv_omega
    have hin : i ≤ k ∧ k ≤ j := by bv_omega
    have hj : i + j - k = j := by bv_omega
    have hne : k ≠ j := by bv_omega
    rw [if_neg hout, if_pos hin, hj, Function.update_of_ne hne, hi, Function.update_self]
  by_cases hj : k = j
  · have hout : ¬ (i + 1#64 ≤ k ∧ k ≤ j - 1#64) := by bv_omega
    have hin : i ≤ k ∧ k ≤ j := by bv_omega
    have hi : i + j - k = i := by bv_omega
    rw [if_neg hout, if_pos hin, hi, hj, Function.update_self]
  have hiff : i + 1#64 ≤ k ∧ k ≤ j - 1#64 ↔ i ≤ k ∧ k ≤ j := by bv_omega
  by_cases hin : i ≤ k ∧ k ≤ j
  · have hne : i + j - k ≠ i := by bv_omega
    have hne' : i + j - k ≠ j := by bv_omega
    rw [if_pos (hiff.mpr hin), if_pos hin, Function.update_of_ne hne', Function.update_of_ne hne]
  · rw [if_neg (mt hiff.mp hin), if_neg hin, Function.update_of_ne hj, Function.update_of_ne hi]

/-- Characters that were written with a 0 after them, reversed over their length. -/
theorem reversed_write (hlt : s.length < 2 ^ 64) (hs : s ≠ []) :
    (str.write (s ++ [0#8])).reversed 0#64 (BitVec.ofNat 64 s.length - 1#64)
      = str.write (s.reverse ++ [0#8]) := by
  have hpos : 0 < s.length := List.length_pos_iff.mpr hs
  funext k
  unfold reversed write
  by_cases hk : k.toNat < s.length
  · have hin : 0#64 ≤ k ∧ k ≤ BitVec.ofNat 64 s.length - 1#64 := by
      constructor <;> bv_omega
    have hback : (0#64 + (BitVec.ofNat 64 s.length - 1#64) - k).toNat = s.length - 1 - k.toNat := by
      bv_omega
    have hk' : k.toNat < s.reverse.length := by rwa [List.length_reverse]
    have hfront : s.length - 1 - k.toNat < s.length := by omega
    rw [if_pos hin, hback, List.getD_append _ _ _ _ hfront, List.getD_append _ _ _ _ hk',
      List.getD_eq_getElem _ _ hfront, List.getD_eq_getElem _ _ hk', List.getElem_reverse]
  · have hout : ¬ (0#64 ≤ k ∧ k ≤ BitVec.ofNat 64 s.length - 1#64) := by bv_omega
    rw [if_neg hout, List.getD_append_right _ _ _ _ (by omega),
      List.getD_append_right _ _ _ _ (by rw [List.length_reverse]; omega), List.length_reverse]

/-- Reversed over its length, a string is reversed. -/
theorem Holds.reversed (h : str.Holds s) (hs : s ≠ []) :
    (str.reversed 0#64 (BitVec.ofNat 64 s.length - 1#64)).Holds s.reverse := by
  have hpos : 0 < s.length := List.length_pos_iff.mpr hs
  have hlt := h.length_lt
  refine ⟨by rwa [List.length_reverse], fun hmem => h.zero_notMem (List.mem_reverse.mp hmem), ?_⟩
  intro k hk
  rw [List.length_reverse] at hk
  unfold CharBuffer.reversed
  rcases Nat.lt_or_eq_of_le hk with hk | rfl
  · have hin : 0#64 ≤ BitVec.ofNat 64 k ∧
        BitVec.ofNat 64 k ≤ BitVec.ofNat 64 s.length - 1#64 := by
      constructor <;> bv_omega
    have hback : 0#64 + (BitVec.ofNat 64 s.length - 1#64) - BitVec.ofNat 64 k =
        BitVec.ofNat 64 (s.length - 1 - k) := by bv_omega
    rw [if_pos hin, hback, h.read_lt (by omega), List.getD_eq_getElem _ _ (by simpa using hk),
      List.getElem_reverse]
  · have hout : ¬ (0#64 ≤ BitVec.ofNat 64 s.length ∧
        BitVec.ofNat 64 s.length ≤ BitVec.ofNat 64 s.length - 1#64) := by bv_omega
    rw [if_neg hout, h.read_length, List.getD_eq_default _ _ (by simp)]

end CharBuffer
