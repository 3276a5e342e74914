import Joes.CharBuffer
import Mathlib.Data.Nat.Digits.Lemmas

/-!
# The functions on strings

`strlen`, `strrev`, `utoa` and `itoa` of the C library. Their loops have as many
iterations as there are offsets, or as a number has digits in base 2. One that
is left over then never ends.

`utoa` and `itoa` are to write numerals (`utoa_eq`, `itoa_eq`). They make
the digits from the last one on, with the sign after them, and reverse them in
the end. `itoa` divides a negative number as it is, since its opposite may not
be a `long`.
-/

/-- The byte of a character. -/
def charByte (c : Char) : BitVec 8 := BitVec.ofNat 8 c.toNat

/-- The bytes of a string. -/
def charBytes (s : String) : List (BitVec 8) := s.toList.map charByte

/-! ## Length -/

/-- The loop of `strlen`, with the iterations that are left. -/
def strlenLoop (str : CharBuffer) : ℕ → BitVec 64 → Option (BitVec 64)
  | 0, _ => none
  | n + 1, i => if str i ≠ 0#8 then strlenLoop str n (i + 1#64) else some i

/-- `strlen`. -/
def strlen (str : CharBuffer) : Option (BitVec 64) := strlenLoop str (2 ^ 64) 0#64

section Libc

variable {str : CharBuffer} {s : List (BitVec 8)}

theorem strlenLoop_eq (h : str.Holds s) {n k : ℕ} (hk : k ≤ s.length) (hn : s.length < k + n) :
    strlenLoop str n (BitVec.ofNat 64 k) = some (BitVec.ofNat 64 s.length) := by
  induction n generalizing k with
  | zero => omega
  | succ n ih =>
    rw [strlenLoop]
    rcases Nat.lt_or_eq_of_le hk with hlt | rfl
    · rw [if_pos (h.ne_zero hlt), CharBuffer.ofNat_succ]
      exact ih hlt (by omega)
    · rw [if_neg (not_not.mpr h.read_length)]

/-- **The length of a string** is found. -/
theorem strlen_eq (h : str.Holds s) : strlen str = some (BitVec.ofNat 64 s.length) :=
  strlenLoop_eq h (Nat.zero_le _) (by rw [Nat.zero_add]; exact h.length_lt)

theorem strlenLoop_first_zero {n k : ℕ} {len : BitVec 64}
    (h : strlenLoop str n (BitVec.ofNat 64 k) = some len) :
    ∃ m < k + n, str (BitVec.ofNat 64 m) = 0#8 ∧
      ∀ i, k ≤ i → i < m → str (BitVec.ofNat 64 i) ≠ 0#8 := by
  induction n generalizing k with
  | zero => cases h
  | succ n ih =>
    rw [strlenLoop] at h
    by_cases hzero : str (BitVec.ofNat 64 k) = 0#8
    · exact ⟨k, by omega, hzero, fun i hki hik => absurd hik (Nat.not_lt.mpr hki)⟩
    · rw [if_pos hzero, CharBuffer.ofNat_succ] at h
      obtain ⟨m, hm, hread, hne⟩ := ih h
      refine ⟨m, by omega, hread, fun i hki him => ?_⟩
      rcases Nat.eq_or_lt_of_le hki with rfl | hlt
      · exact hzero
      · exact hne i hlt him

/-- Where `strlen` returns there is a string. -/
theorem exists_holds_of_strlen {len : BitVec 64} (h : strlen str = some len) :
    ∃ s, str.Holds s := by
  obtain ⟨m, hm, hread, hne⟩ := strlenLoop_first_zero (k := 0) h
  rw [Nat.zero_add] at hm
  exact ⟨_, .of_first_zero hm hread fun i => hne i (Nat.zero_le i)⟩

/-! ## Reversing -/

/-- The loop of `strrev`, with the iterations that are left. -/
def strrevLoop : ℕ → BitVec 64 → BitVec 64 → CharBuffer → Option CharBuffer
  | 0, _, _, _ => none
  | n + 1, i, j, str =>
    if i < j then
      let temp := str i
      let str := Function.update str i (str j)
      let str := Function.update str j temp
      strrevLoop n (i + 1#64) (j - 1#64) str
    else some str

/-- `strrev`. -/
def strrev (str : CharBuffer) : Option CharBuffer := do
  let len ← strlen str
  strrevLoop (2 ^ 64) 0#64 (len - 1#64) str

theorem strrevLoop_eq {n : ℕ} {i j : BitVec 64} (hpos : 0 < n) (hn : j.toNat < i.toNat + n) :
    strrevLoop n i j str = some (str.reversed i j) := by
  induction n generalizing i j str with
  | zero => omega
  | succ n ih =>
    rw [strrevLoop]
    by_cases hij : i < j
    · rw [if_pos hij]
      dsimp only
      rw [ih (by bv_omega) (by bv_omega), CharBuffer.reversed_swap hij]
    · have hle : j ≤ i := by bv_omega
      rw [if_neg hij, CharBuffer.reversed_of_le hle]

/-- What is reversed are the characters up to the last one before the 0. -/
theorem strrev_eq (h : str.Holds s) :
    strrev str = some (str.reversed 0#64 (BitVec.ofNat 64 s.length - 1#64)) := by
  rw [strrev, strlen_eq h]
  exact strrevLoop_eq (by decide) (by bv_omega)

/-! ## Numerals -/

/-- The character `utoa` and `itoa` write for a digit. -/
def digitByte (temp : BitVec 32) : BitVec 8 :=
  (if (9#32).slt temp then BitVec.ofNat 32 'a'.toNat + temp - 10#32
    else BitVec.ofNat 32 '0'.toNat + temp).setWidth 8

/-- The loop of `utoa`, with the iterations that are left. -/
def utoaLoop (base : BitVec 32) : ℕ → BitVec 64 → BitVec 64 → CharBuffer →
    Option (BitVec 64 × CharBuffer)
  | 0, _, _, _ => none
  | n + 1, number, i, str =>
    if number ≠ 0#64 then
      let temp := (number % base.signExtend 64).setWidth 32
      let str := Function.update str i (digitByte temp)
      utoaLoop base n (number / base.signExtend 64) (i + 1#64) str
    else some (i, str)

/-- `utoa`. -/
def utoa (number : BitVec 64) (str : CharBuffer) (base : BitVec 32) : Option CharBuffer :=
  if number = 0#64 then
    some (Function.update (Function.update str 0#64 (charByte '0')) 1#64 0#8)
  else do
    let (i, str) ← utoaLoop base 65 number 0#64 str
    strrev (Function.update str i 0#8)

/-- The loop of `itoa`, with the iterations that are left. -/
def itoaLoop (sign : Bool) (base : BitVec 32) : ℕ → BitVec 64 → BitVec 64 → CharBuffer →
    Option (BitVec 64 × CharBuffer)
  | 0, _, _, _ => none
  | n + 1, number, i, str =>
    if number ≠ 0#64 then
      let temp := (number.srem (base.signExtend 64)).setWidth 32
      let temp := if sign then temp * -1#32 else temp
      let str := Function.update str i (digitByte temp)
      itoaLoop sign base n (number.sdiv (base.signExtend 64)) (i + 1#64) str
    else some (i, str)

/-- `itoa`. -/
def itoa (number : BitVec 64) (str : CharBuffer) (base : BitVec 32) : Option CharBuffer :=
  if number = 0#64 then
    some (Function.update (Function.update str 0#64 (charByte '0')) 1#64 0#8)
  else do
    let sign := number.slt 0#64
    let (i, str) ← itoaLoop sign base 65 number 0#64 str
    if sign then
      let str := Function.update str i (charByte '-')
      strrev (Function.update str (i + 1#64) 0#8)
    else strrev (Function.update str i 0#8)

/-- The character of a digit, in a base of up to 36. -/
def digitChar (d : ℕ) : BitVec 8 :=
  BitVec.ofNat 8 (if d < 10 then '0'.toNat + d else 'a'.toNat + (d - 10))

/-- **The numeral** of a number, with no zero before its digits. -/
def numeral (base n : ℕ) : List (BitVec 8) :=
  if n = 0 then [charByte '0'] else ((Nat.digits base n).map digitChar).reverse

/-- The numeral of an integer, with its sign if it is negative. -/
def signedNumeral (base : ℕ) (n : ℤ) : List (BitVec 8) :=
  if n < 0 then charByte '-' :: numeral base n.natAbs else numeral base n.natAbs

theorem digitByte_eq {temp : BitVec 32} (h : temp.toNat < 36) :
    digitByte temp = digitChar temp.toNat := by
  have hall : ∀ d : Fin 36, digitByte (BitVec.ofNat 32 d) = digitChar d := by decide
  have htemp := hall ⟨temp.toNat, h⟩
  rwa [BitVec.ofNat_toNat, BitVec.setWidth_eq] at htemp

theorem digitChar_ne_zero {d : ℕ} (h : d < 36) : digitChar d ≠ 0#8 := by
  have hall : ∀ d : Fin 36, digitChar d ≠ 0#8 := by decide
  exact hall ⟨d, h⟩

theorem toNat_signExtend {base : BitVec 32} (h : base.toNat ≤ 36) :
    (base.signExtend 64).toNat = base.toNat := by
  have hmsb : base.msb = false := BitVec.msb_eq_false_iff_two_mul_lt.mpr (by omega)
  rw [BitVec.signExtend_eq_setWidth_of_msb_false hmsb, BitVec.toNat_setWidth]
  exact Nat.mod_eq_of_lt (by omega)

/-- **The digits** are written after what was there, from the last one on. -/
theorem utoaLoop_eq {base : BitVec 32} (hbase : 2 ≤ base.toNat) (hbase' : base.toNat ≤ 36) {n : ℕ}
    {number : BitVec 64} (pre : List (BitVec 8)) (hn : number.toNat < 2 ^ n)
    (hpre : pre.length + n < 2 ^ 64) :
    let digits := (Nat.digits base.toNat number.toNat).map digitChar
    utoaLoop base (n + 1) number (BitVec.ofNat 64 pre.length) (str.write pre) =
      some (BitVec.ofNat 64 (pre ++ digits).length, str.write (pre ++ digits)) := by
  induction n generalizing number pre with
  | zero =>
    have hzero : number = 0#64 := BitVec.eq_of_toNat_eq (by simpa using hn)
    subst hzero
    simp [utoaLoop]
  | succ n ih =>
    rw [utoaLoop]
    by_cases hzero : number = 0#64
    · subst hzero
      simp
    · rw [if_pos hzero]
      have hsign := toNat_signExtend hbase'
      have hpos : 0 < number.toNat := by bv_omega
      have hdigit : ((number % base.signExtend 64).setWidth 32).toNat
          = number.toNat % base.toNat := by
        have hlt := Nat.mod_lt number.toNat (show 0 < base.toNat by omega)
        rw [BitVec.toNat_setWidth, BitVec.toNat_umod, hsign]
        exact Nat.mod_eq_of_lt (by omega)
      have hquotient : (number / base.signExtend 64).toNat = number.toNat / base.toNat := by
        rw [BitVec.toNat_udiv, hsign]
      have hlt : (number / base.signExtend 64).toNat < 2 ^ n := by
        rw [hquotient]
        refine Nat.div_lt_of_lt_mul (hn.trans_le ?_)
        rw [Nat.pow_succ, Nat.mul_comm]
        exact Nat.mul_le_mul_right _ hbase
      have hdigits : Nat.digits base.toNat number.toNat =
          (number.toNat % base.toNat) :: Nat.digits base.toNat (number.toNat / base.toNat) :=
        Nat.digits_of_two_le_of_pos hbase hpos
      have hchar : digitByte ((number % base.signExtend 64).setWidth 32)
          = digitChar (number.toNat % base.toNat) := by
        have hlt' := Nat.mod_lt number.toNat (show 0 < base.toNat by omega)
        rw [digitByte_eq (by omega), hdigit]
      dsimp only
      rw [hchar, CharBuffer.update_write (by omega), CharBuffer.ofNat_succ, hdigits]
      have hrest := ih (pre ++ [digitChar (number.toNat % base.toNat)]) hlt
        (by rw [List.length_append, List.length_singleton]; omega)
      rw [List.length_append, List.length_singleton, hquotient] at hrest
      rw [hrest, List.map_cons, List.append_assoc, List.singleton_append]

/-- No digit ends the string. -/
theorem zero_notMem_digits {base n : ℕ} (hbase : 1 < base) (hbase' : base ≤ 36) :
    0#8 ∉ (Nat.digits base n).map digitChar := by
  intro hmem
  obtain ⟨d, hd, hzero⟩ := List.mem_map.mp hmem
  exact digitChar_ne_zero ((Nat.digits_lt_base hbase hd).trans_le hbase') hzero

/-- A number of 64 bits has at most as many digits. -/
theorem length_digits_le {base : ℕ} (hbase : 2 ≤ base) (number : BitVec 64) :
    ((Nat.digits base number.toNat).map digitChar).length ≤ 64 := by
  rw [List.length_map, Nat.digits_length_le_iff hbase]
  exact number.isLt.trans_le (Nat.pow_le_pow_left hbase 64)

/-- A numeral that is written from its last digit on is reversed. -/
theorem strrev_write {pre : List (BitVec 8)} (hpre : pre ≠ []) (hlt : pre.length < 2 ^ 64)
    (hzero : 0#8 ∉ pre) (str : CharBuffer) :
    strrev (Function.update (str.write pre) (BitVec.ofNat 64 pre.length) 0#8)
      = some (str.write (pre.reverse ++ [0#8])) := by
  rw [CharBuffer.update_write hlt, strrev_eq (CharBuffer.holds_write hlt hzero),
    CharBuffer.reversed_write hlt hpre]

/-- The numeral of 0 is written as it is. -/
theorem update_zero (base : ℕ) (str : CharBuffer) :
    Function.update (Function.update str 0#64 (charByte '0')) 1#64 0#8
      = str.write (numeral base 0 ++ [0#8]) := by
  have hone : Function.update str 0#64 (charByte '0') = str.write [charByte '0'] :=
    CharBuffer.update_write (s := []) (by decide)
  rw [hone]
  exact CharBuffer.update_write (s := [charByte '0']) (by decide)

/-- The digits of a number, written from the start of a buffer on. -/
theorem utoaLoop_digits {base : BitVec 32} (hbase : 2 ≤ base.toNat) (hbase' : base.toNat ≤ 36)
    (number : BitVec 64) (str : CharBuffer) :
    let digits := (Nat.digits base.toNat number.toNat).map digitChar
    utoaLoop base 65 number 0#64 str =
      some (BitVec.ofNat 64 digits.length, str.write digits) :=
  utoaLoop_eq hbase hbase' [] number.isLt (by decide)

/-- **`utoa`** writes the numeral of the number, and nothing behind it. -/
theorem utoa_eq {base : BitVec 32} (hbase : 2 ≤ base.toNat) (hbase' : base.toNat ≤ 36)
    (number : BitVec 64) (str : CharBuffer) :
    utoa number str base = some (str.write (numeral base.toNat number.toNat ++ [0#8])) := by
  unfold utoa
  by_cases hzero : number = 0#64
  · subst hzero
    exact congrArg some (update_zero _ _)
  · have hpos : number.toNat ≠ 0 := by bv_omega
    have hle := length_digits_le hbase number
    rw [if_neg hzero, numeral, if_neg hpos, utoaLoop_digits hbase hbase']
    refine strrev_write ?_ (by omega) (zero_notMem_digits hbase hbase') str
    simpa [Nat.digits_ne_nil_iff_ne_zero] using hpos

/-- The signed division of a number that is not negative is the unsigned one. -/
theorem itoaLoop_false {base : BitVec 32} (hbase : base.toNat ≤ 36) {n : ℕ}
    {number i : BitVec 64} (hnumber : number.msb = false) :
    itoaLoop false base n number i str = utoaLoop base n number i str := by
  have hmsb : (base.signExtend 64).msb = false :=
    BitVec.msb_eq_false_iff_two_mul_lt.mpr (by rw [toNat_signExtend hbase]; omega)
  induction n generalizing number i str with
  | zero => rfl
  | succ n ih =>
    have hrem : number.srem (base.signExtend 64) = number % base.signExtend 64 := by
      rw [BitVec.srem_eq, hnumber, hmsb]
    have hdiv : number.sdiv (base.signExtend 64) = number / base.signExtend 64 := by
      rw [BitVec.sdiv_eq, hnumber, hmsb]
      rfl
    have hquotient : (number / base.signExtend 64).msb = false := by
      rw [BitVec.msb_eq_false_iff_two_mul_lt] at *
      rw [BitVec.toNat_udiv]
      have hle := Nat.div_le_self number.toNat (base.signExtend 64).toNat
      omega
    rw [itoaLoop, utoaLoop, hrem, hdiv]
    dsimp only
    rw [if_neg Bool.false_ne_true, ih hquotient]

/-- The signed division of a negative number is the unsigned one of its opposite. -/
theorem itoaLoop_true {base : BitVec 32} (hbase : base.toNat ≤ 36) {n : ℕ}
    {number i : BitVec 64} (hnumber : number.toNat ≤ 2 ^ 63) :
    itoaLoop true base n (-number) i str = utoaLoop base n number i str := by
  have hmsb : (base.signExtend 64).msb = false :=
    BitVec.msb_eq_false_iff_two_mul_lt.mpr (by rw [toNat_signExtend hbase]; omega)
  induction n generalizing number i str with
  | zero => rfl
  | succ n ih =>
    rw [itoaLoop, utoaLoop]
    by_cases hzero : number = 0#64
    · rw [if_neg (by simp [hzero]), if_neg (not_not.mpr hzero)]
    have hneg : (-number).msb = true := by
      rw [BitVec.msb_eq_true_iff_two_mul_ge]
      bv_omega
    have hrem : (-number).srem (base.signExtend 64) = -(number % base.signExtend 64) := by
      rw [BitVec.srem_eq, hneg, hmsb]
      dsimp only
      rw [BitVec.neg_neg]
    have hdiv : (-number).sdiv (base.signExtend 64) = -(number / base.signExtend 64) := by
      rw [BitVec.sdiv_eq, hneg, hmsb]
      dsimp only
      rw [BitVec.neg_neg]
      rfl
    have hdigit : (-(number % base.signExtend 64)).setWidth 32 * -1#32
        = (number % base.signExtend 64).setWidth 32 := by
      rw [BitVec.setWidth_neg_of_le (by decide), BitVec.mul_neg, BitVec.mul_one, BitVec.neg_neg]
    have hquotient : (number / base.signExtend 64).toNat ≤ 2 ^ 63 := by
      rw [BitVec.toNat_udiv]
      exact (Nat.div_le_self _ _).trans hnumber
    rw [if_pos (by simpa using hzero), if_pos hzero, hrem, hdiv]
    dsimp only
    rw [if_pos rfl, hdigit, ih hquotient]

/-- **`itoa`** writes the numeral of the number with its sign, and nothing behind
it. -/
theorem itoa_eq {base : BitVec 32} (hbase : 2 ≤ base.toNat) (hbase' : base.toNat ≤ 36)
    (number : BitVec 64) (str : CharBuffer) :
    itoa number str base = some (str.write (signedNumeral base.toNat number.toInt ++ [0#8])) := by
  unfold itoa
  by_cases hzero : number = 0#64
  · subst hzero
    exact congrArg some (update_zero base.toNat str)
  rw [if_neg hzero]
  dsimp only
  rw [BitVec.slt_zero_eq_msb]
  cases hsign : number.msb with
  | false =>
    have hpos : number.toNat ≠ 0 := by bv_omega
    have hle := length_digits_le hbase number
    have htoInt := BitVec.toInt_eq_toNat_of_msb hsign
    rw [itoaLoop_false hbase' hsign, utoaLoop_digits hbase hbase', htoInt, signedNumeral,
      if_neg (by omega), Int.natAbs_natCast, numeral, if_neg hpos]
    refine strrev_write ?_ (by omega) (zero_notMem_digits hbase hbase') str
    simpa [Nat.digits_ne_nil_iff_ne_zero] using hpos
  | true =>
    have hopposite : (-number).toNat ≤ 2 ^ 63 := by
      rw [BitVec.msb_eq_true_iff_two_mul_ge] at hsign
      bv_omega
    have hpos : (-number).toNat ≠ 0 := by bv_omega
    have hle := length_digits_le hbase (-number)
    have htoInt := BitVec.toInt_eq_neg_toNat_neg_of_msb_true hsign
    have hloop : itoaLoop true base 65 _ 0#64 str = _ := itoaLoop_true hbase' hopposite
    rw [BitVec.neg_neg, utoaLoop_digits hbase hbase'] at hloop
    rw [hloop, htoInt, signedNumeral, if_pos (by omega), Int.natAbs_neg, Int.natAbs_natCast,
      numeral, if_neg hpos]
    -- The sign is one more character of what is reversed.
    have hdigits := zero_notMem_digits (n := (-number).toNat) hbase hbase'
    generalize (Nat.digits base.toNat (-number).toNat).map digitChar = digits at *
    have hwrite := strrev_write (show digits ++ [charByte '-'] ≠ [] by simp)
      (by rw [List.length_append, List.length_singleton]; omega)
      (by rw [List.mem_append, not_or]; exact ⟨hdigits, by decide⟩) str
    rw [List.reverse_concat, List.length_append, List.length_singleton, ← CharBuffer.update_write
      (by omega), ← CharBuffer.ofNat_succ] at hwrite
    exact hwrite

/-! ## What a numeral consists of -/

/-- A numeral consists of digits. -/
theorem mem_numeral {base n : ℕ} (hbase : 2 ≤ base) {c : BitVec 8} (hc : c ∈ numeral base n) :
    ∃ d < base, c = digitChar d := by
  unfold numeral at hc
  split at hc
  · exact ⟨0, by omega, List.mem_singleton.mp hc⟩
  · obtain ⟨d, hd, rfl⟩ := List.mem_map.mp (List.mem_reverse.mp hc)
    exact ⟨d, Nat.digits_lt_base hbase hd, rfl⟩

theorem zero_notMem_numeral {base : ℕ} (hbase : 2 ≤ base) (hbase' : base ≤ 36) (n : ℕ) :
    0#8 ∉ numeral base n := by
  intro hmem
  obtain ⟨d, hd, hzero⟩ := mem_numeral hbase hmem
  exact digitChar_ne_zero (hd.trans_le hbase') hzero.symm

theorem zero_notMem_signedNumeral {base : ℕ} (hbase : 2 ≤ base) (hbase' : base ≤ 36) (n : ℤ) :
    0#8 ∉ signedNumeral base n := by
  unfold signedNumeral
  split
  · exact List.not_mem_cons_of_ne_of_not_mem (by decide) (zero_notMem_numeral hbase hbase' _)
  · exact zero_notMem_numeral hbase hbase' _

/-- The numeral of a number of up to 64 bits has no more digits. -/
theorem length_numeral_le {base n : ℕ} (hbase : 2 ≤ base) (hn : n < 2 ^ 64) :
    (numeral base n).length ≤ 64 := by
  unfold numeral
  split
  · exact Nat.one_le_iff_ne_zero.mpr (by decide)
  · rw [List.length_reverse, List.length_map, Nat.digits_length_le_iff hbase]
    exact hn.trans_le (Nat.pow_le_pow_left hbase 64)

theorem length_signedNumeral_le {base : ℕ} (hbase : 2 ≤ base) (number : BitVec 64) :
    (signedNumeral base number.toInt).length ≤ 65 := by
  have hlt : number.toInt.natAbs < 2 ^ 64 := by
    have hlo := BitVec.le_toInt number
    have hhi : number.toInt < 2 ^ 63 := BitVec.toInt_lt
    omega
  have hle := length_numeral_le hbase hlt
  unfold signedNumeral
  split
  · rw [List.length_cons]
    omega
  · omega

/-- **`utoa`** leaves a string. -/
theorem utoa_holds {base : BitVec 32} (hbase : 2 ≤ base.toNat) (hbase' : base.toNat ≤ 36)
    (number : BitVec 64) (str : CharBuffer) :
    ∃ str', utoa number str base = some str' ∧ str'.Holds (numeral base.toNat number.toNat) := by
  have hle := length_numeral_le hbase number.isLt
  exact ⟨_, utoa_eq hbase hbase' number str,
    CharBuffer.holds_write (by omega) (zero_notMem_numeral hbase hbase' _)⟩

/-- **`itoa`** leaves a string. -/
theorem itoa_holds {base : BitVec 32} (hbase : 2 ≤ base.toNat) (hbase' : base.toNat ≤ 36)
    (number : BitVec 64) (str : CharBuffer) :
    ∃ str', itoa number str base = some str' ∧
      str'.Holds (signedNumeral base.toNat number.toInt) := by
  have hle := length_signedNumeral_le hbase number
  exact ⟨_, itoa_eq hbase hbase' number str,
    CharBuffer.holds_write (by omega) (zero_notMem_signedNumeral hbase hbase' _)⟩

end Libc
