import Joes.Libc
import Joes.TextReading

/-!
# Numerals are read back

What `utoa` and `itoa` leave in memory, read as a numeral again. A reader takes
the digits from the highest one on, from `0` to `9` and then from `a` to `z`, so
it knows nothing of how they were made. It gets back the number, for every base
that has so many digits and every number of 64 bits, the most negative one
included (`utoa_itoa_roundTrip`).

The loop and `strrev` are done with before this module: the string they leave is the
digits of the number from the highest one on, as Mathlib has them in `Nat.digits`, and
behind a sign if the number is negative. Here these digits are read. Each of the 36
characters stands for the digit it was written for (`digitOf_digitChar`), so the value of
the numeral is that of the digits, which is the number. There is no 0 before other
digits, since the highest digit of a number is not 0 unless the number is
(`isNumeral_numeral`).

In base 2 the numeral has up to 64 digits. With a sign and the 0 at the end it takes 66
bytes, and nothing behind them has changed (`LeavesNumeral`).
-/

open TextReading

/-- The digit that a character stands for. -/
def digitOf (c : BitVec 8) : Option ℕ :=
  if '0'.toNat ≤ c.toNat ∧ c.toNat ≤ '9'.toNat then some (c.toNat - '0'.toNat)
  else if 'a'.toNat ≤ c.toNat ∧ c.toNat ≤ 'z'.toNat then some (c.toNat - 'a'.toNat + 10)
  else none

/-- **The numeral of a number**: at least one digit, all of them digits of the base,
no zero in front of others, and the number as their value. -/
structure IsNumeral (base n : ℕ) (s : List (BitVec 8)) : Prop where
  value : readNumeral digitOf base s = some n
  leading : s.head? = some (charByte '0') → s = [charByte '0']

/-- **The numeral of an integer**: that of its absolute value, with a minus sign
before it if the integer is negative. -/
def IsSignedNumeral (base : ℕ) (n : ℤ) (s : List (BitVec 8)) : Prop :=
  ∃ digits, IsNumeral base n.natAbs digits ∧
    s = if n < 0 then charByte '-' :: digits else digits

/-- **A numeral in memory**: a string that is ended by a 0, of at most 66 bytes with
that 0, behind which nothing has changed. -/
def LeavesNumeral (P : List (BitVec 8) → Prop) (str str' : CharBuffer) : Prop :=
  ∃ s, str'.Holds s ∧ P s ∧ s.length + 1 ≤ 66 ∧
    ∀ i : BitVec 64, s.length < i.toNat → str' i = str i

section Numerals

variable {base n : ℕ}

theorem digitOf_digitChar {d : ℕ} (h : d < 36) : digitOf (digitChar d) = some d := by
  have hall : ∀ d : Fin 36, digitOf (digitChar d) = some d.val := by decide
  exact hall ⟨d, h⟩

/-- Only the digit 0 is written as one. -/
theorem digitChar_eq_zero {d : ℕ} (h : d < 36) (hd : digitChar d = charByte '0') : d = 0 := by
  have hread := digitOf_digitChar h
  rw [hd] at hread
  exact (Option.some.inj hread).symm

/-- **The numeral that is written** is one of its number. -/
theorem isNumeral_numeral (hbase : 2 ≤ base) (hbase' : base ≤ 36) (n : ℕ) :
    IsNumeral base n (numeral base n) := by
  have hdigit : ∀ d < base, d < base ∧ digitOf (digitChar d) = some d := fun d hd =>
    ⟨hd, digitOf_digitChar (hd.trans_le hbase')⟩
  unfold numeral
  by_cases hn : n = 0
  · subst hn
    have hzero := readNumeral_digits (List.cons_ne_nil 0 [])
      (List.forall_mem_singleton.mpr (hdigit 0 (by omega)))
    rw [Nat.ofDigits_singleton] at hzero
    exact ⟨hzero, fun _ => rfl⟩
  · have hne : Nat.digits base n ≠ [] := Nat.digits_ne_nil_iff_ne_zero.mpr hn
    rw [if_neg hn]
    constructor
    · rw [readNumeral_digits hne fun d hd => hdigit d (Nat.digits_lt_base hbase hd),
        Nat.ofDigits_digits]
    · -- the highest digit is not 0
      intro hhead
      rw [List.head?_reverse, List.getLast?_map, List.getLast?_eq_some_getLast hne] at hhead
      have hlast := Option.some.inj hhead
      have hlt := Nat.digits_lt_base hbase (List.getLast_mem hne)
      exact absurd (digitChar_eq_zero (hlt.trans_le hbase') hlast)
        (Nat.getLast_digit_ne_zero base hn)

theorem isSignedNumeral_signedNumeral (hbase : 2 ≤ base) (hbase' : base ≤ 36) (n : ℤ) :
    IsSignedNumeral base n (signedNumeral base n) :=
  ⟨_, isNumeral_numeral hbase hbase' n.natAbs, rfl⟩

/-- What is written over a buffer leaves a numeral there. -/
theorem leavesNumeral_write {P : List (BitVec 8) → Prop} {s : List (BitVec 8)} (hs : P s)
    (hlength : s.length ≤ 65) (hzero : 0#8 ∉ s) (str : CharBuffer) :
    LeavesNumeral P str (str.write (s ++ [0#8])) := by
  refine ⟨s, CharBuffer.holds_write (by omega) hzero, hs, by omega, fun i hi => ?_⟩
  rw [CharBuffer.write, List.getD_eq_default]
  rw [List.length_append, List.length_singleton]
  exact hi

end Numerals

/-- **Numbers are read back**: `utoa` leaves the numeral of an unsigned number, and
`itoa` that of a signed one. -/
theorem utoa_itoa_roundTrip (base : BitVec 32) (hbase : 2 ≤ base.toNat)
    (hbase' : base.toNat ≤ 36) (number : BitVec 64) (str : CharBuffer) :
    (∃ str', utoa number str base = some str' ∧
      LeavesNumeral (IsNumeral base.toNat number.toNat) str str') ∧
    ∃ str', itoa number str base = some str' ∧
      LeavesNumeral (IsSignedNumeral base.toNat number.toInt) str str' := by
  refine ⟨⟨_, utoa_eq hbase hbase' number str, ?_⟩, ⟨_, itoa_eq hbase hbase' number str, ?_⟩⟩
  · exact leavesNumeral_write (isNumeral_numeral hbase hbase' _)
      ((length_numeral_le hbase number.isLt).trans (by decide))
      (zero_notMem_numeral hbase hbase' _) str
  · exact leavesNumeral_write (isSignedNumeral_signedNumeral hbase hbase' _)
      (length_signedNumeral_le hbase number) (zero_notMem_signedNumeral hbase hbase' _) str

/-- The most negative number in base 2. -/
theorem utoa_itoa_roundTrip_intMin :
    ∃ str', itoa (BitVec.intMin 64) (fun _ => 0#8) 2#32 = some str' ∧
      LeavesNumeral (IsSignedNumeral 2 (-2 ^ 63)) (fun _ => 0#8) str' :=
  (utoa_itoa_roundTrip 2#32 (by decide) (by decide) (BitVec.intMin 64) _).2
