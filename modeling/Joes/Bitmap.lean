import Mathlib.Data.Finset.Card
import Mathlib.Data.Finset.Range
import Mathlib.Data.Nat.Bitwise
import Mathlib.Tactic.IntervalCases
import Mathlib.Tactic.Push

/-!
# Bitmaps in a flat memory

A bitmap is a pointer into a byte-addressed memory: bit `k` of it is bit
`k % 8` of the byte `k / 8` bytes behind the pointer. Nothing bounds it. Whether
an assignment to one bitmap leaves another alone is a question of addresses,
and the lemmas below ask it as one: two bits are different bits if they lie in
different bytes or at different places of the same byte.

The main facts are what setting and clearing a bit does to every other bit, that
setting a bit never clears one, and what either does to the number of clear
bits among the first `n`.
-/

/-- A memory of bytes under 64-bit addresses. -/
abbrev ByteMemory := BitVec 64 → BitVec 8

namespace Bitmap

/-- The address of the `b`-th byte behind a pointer. -/
def byteAddress (ptr : BitVec 64) (b : ℕ) : BitVec 64 := ptr + BitVec.ofNat 64 b

/-- The `b`-th byte behind a pointer. -/
def byteAt (mem : ByteMemory) (ptr : BitVec 64) (b : ℕ) : BitVec 8 := mem (byteAddress ptr b)

/-- Bit `k` of the bitmap at a pointer. -/
def bitAt (mem : ByteMemory) (ptr : BitVec 64) (k : ℕ) : Bool :=
  (byteAt mem ptr (k / 8)).getLsbD (k % 8)

/-- Set bit `k` of the bitmap at a pointer. -/
def setBit (mem : ByteMemory) (ptr : BitVec 64) (k : ℕ) : ByteMemory :=
  Function.update mem (byteAddress ptr (k / 8)) (byteAt mem ptr (k / 8) ||| 1#8 <<< (k % 8))

/-- Clear bit `k` of the bitmap at a pointer. -/
def clearBit (mem : ByteMemory) (ptr : BitVec 64) (k : ℕ) : ByteMemory :=
  Function.update mem (byteAddress ptr (k / 8)) (byteAt mem ptr (k / 8) &&& ~~~(1#8 <<< (k % 8)))

/-- Set the first bits of the bitmap at a pointer. -/
def setBits (mem : ByteMemory) (ptr : BitVec 64) : ℕ → ByteMemory
  | 0 => mem
  | t + 1 => setBit (setBits mem ptr t) ptr t

/-- Fill the `size` bytes behind a pointer with one value. -/
def fill (mem : ByteMemory) (ptr : BitVec 64) (value : BitVec 8) (size : ℕ) : ByteMemory :=
  fun a => if (a - ptr).toNat < size then value else mem a

/-- The number of clear bits among the first `n`. -/
def clearCount (mem : ByteMemory) (ptr : BitVec 64) (n : ℕ) : ℕ :=
  ((Finset.range n).filter fun k => bitAt mem ptr k = false).card

/-- A bit by its byte and its place there. -/
theorem bitAt_mul_add (mem : ByteMemory) (ptr : BitVec 64) (b : ℕ) {k : ℕ} (hk : k < 8) :
    bitAt mem ptr (b * 8 + k) = (byteAt mem ptr b).getLsbD k := by
  unfold bitAt
  rw [show (b * 8 + k) / 8 = b by omega, show (b * 8 + k) % 8 = k by omega]

/-! ## Addresses -/

/-- Two offsets that both fit the address space are two addresses. -/
theorem byteAddress_inj {ptr : BitVec 64} {a b : ℕ} (ha : a < 2 ^ 64) (hb : b < 2 ^ 64) :
    byteAddress ptr a = byteAddress ptr b ↔ a = b := by
  unfold byteAddress
  rw [BitVec.add_right_inj]
  constructor
  · intro h
    have h' := congrArg BitVec.toNat h
    rwa [BitVec.toNat_ofNat, BitVec.toNat_ofNat, Nat.mod_eq_of_lt ha, Nat.mod_eq_of_lt hb] at h'
  · rintro rfl
    rfl

theorem byteAddress_byteAddress (ptr : BitVec 64) (a b : ℕ) :
    byteAddress (byteAddress ptr a) b = byteAddress ptr (a + b) := by
  unfold byteAddress
  rw [BitVec.add_assoc, ← BitVec.ofNat_add]

/-- How far behind its pointer a byte lies. -/
theorem byteAddress_sub (ptr : BitVec 64) (b : ℕ) :
    (byteAddress ptr b - ptr).toNat = b % 2 ^ 64 := by
  unfold byteAddress
  rw [BitVec.add_comm, BitVec.add_sub_cancel, BitVec.toNat_ofNat]

/-! ## Bits of one byte -/

theorem getLsbD_or_bit (x : BitVec 8) {i j : ℕ} (hj : j < 8) :
    (x ||| 1#8 <<< i).getLsbD j = (x.getLsbD j || decide (i = j)) := by
  rw [BitVec.getLsbD_or, BitVec.getLsbD_shiftLeft, BitVec.getLsbD_one]
  congr 1
  by_cases h : i = j
  · simp [h, hj]
  · simp [h]
    omega

theorem getLsbD_and_not_bit (x : BitVec 8) {i j : ℕ} (hj : j < 8) :
    (x &&& ~~~(1#8 <<< i)).getLsbD j = (x.getLsbD j && decide (i ≠ j)) := by
  rw [BitVec.getLsbD_and, BitVec.getLsbD_not, BitVec.getLsbD_shiftLeft, BitVec.getLsbD_one]
  congr 1
  by_cases h : i = j
  · simp [h, hj]
  · simp [h, hj]
    omega

/-- A test of one bit by a mask. -/
theorem and_bit_eq_zero_iff (x : BitVec 8) {k : ℕ} (hk : k < 8) :
    x &&& 1#8 <<< k = 0#8 ↔ x.getLsbD k = false := by
  constructor
  · intro h
    have h' := congrArg (fun y : BitVec 8 => y.getLsbD k) h
    simpa [BitVec.getLsbD_and, BitVec.getLsbD_shiftLeft, hk] using h'
  · intro h
    apply BitVec.eq_of_getLsbD_eq
    intro j hj
    rw [BitVec.getLsbD_and, BitVec.getLsbD_shiftLeft, BitVec.getLsbD_one]
    by_cases hjk : j = k
    · simp [hjk, h]
    · have : j < k ∨ j - k ≠ 0 := by omega
      rcases this with hlt | hne <;> simp [*]

/-- A byte under a mask of one bit, as a number. -/
theorem toNat_and_bit (x : BitVec 8) {k : ℕ} (hk : k < 8) :
    (x &&& 1#8 <<< k).toNat = if x.getLsbD k then 2 ^ k else 0 := by
  have hmask : (1#8 <<< k).toNat = 2 ^ k := by
    interval_cases k <;> rfl
  rw [BitVec.toNat_and, hmask, Nat.and_two_pow, ← BitVec.getLsbD]
  cases x.getLsbD k with
  | true => exact Nat.one_mul _
  | false => exact Nat.zero_mul _

/-- A byte all of whose bits are set is 255. -/
theorem eq_allOnes_iff (x : BitVec 8) : x = 0xFF#8 ↔ ∀ k < 8, x.getLsbD k = true := by
  constructor
  · rintro rfl
    decide
  · intro h
    apply BitVec.eq_of_getLsbD_eq
    intro j hj
    rw [h j hj]
    interval_cases j <;> rfl

/-- A byte that is not 255 has a clear bit. -/
theorem exists_clear_of_ne_allOnes {x : BitVec 8} (h : x ≠ 0xFF#8) :
    ∃ k < 8, x.getLsbD k = false := by
  rw [Ne, eq_allOnes_iff] at h
  push Not at h
  obtain ⟨k, hk, hc⟩ := h
  exact ⟨k, hk, Bool.eq_false_iff.mpr hc⟩

/-! ## Writing one bit -/

section Write

variable (mem : ByteMemory) (ptr q : BitVec 64) (k l : ℕ)

@[simp] theorem bitAt_setBit_self : bitAt (setBit mem ptr k) ptr k = true := by
  unfold bitAt byteAt setBit
  rw [Function.update_self, getLsbD_or_bit _ (Nat.mod_lt k (by norm_num))]
  simp

@[simp] theorem bitAt_clearBit_self : bitAt (clearBit mem ptr k) ptr k = false := by
  unfold bitAt byteAt clearBit
  rw [Function.update_self, getLsbD_and_not_bit _ (Nat.mod_lt k (by norm_num))]
  simp

variable {mem ptr q k l}

theorem byteAt_setBit_of_ne {b : ℕ} (h : byteAddress q b ≠ byteAddress ptr (k / 8)) :
    byteAt (setBit mem ptr k) q b = byteAt mem q b :=
  Function.update_of_ne h _ _

theorem byteAt_clearBit_of_ne {b : ℕ} (h : byteAddress q b ≠ byteAddress ptr (k / 8)) :
    byteAt (clearBit mem ptr k) q b = byteAt mem q b :=
  Function.update_of_ne h _ _

/-- Two bits of memory are different bits. -/
def BitNe (ptr : BitVec 64) (k : ℕ) (q : BitVec 64) (l : ℕ) : Prop :=
  byteAddress q (l / 8) ≠ byteAddress ptr (k / 8) ∨ l % 8 ≠ k % 8

/-- Setting a bit changes no other bit. -/
theorem bitAt_setBit_of_ne (h : BitNe ptr k q l) :
    bitAt (setBit mem ptr k) q l = bitAt mem q l := by
  by_cases ha : byteAddress q (l / 8) = byteAddress ptr (k / 8)
  · have hl : k % 8 ≠ l % 8 := fun e => (h.resolve_left (not_not_intro ha)) e.symm
    unfold bitAt byteAt setBit
    rw [ha, Function.update_self, getLsbD_or_bit _ (Nat.mod_lt l (by norm_num)),
      decide_eq_false hl, Bool.or_false]
    rfl
  · exact congrArg (fun x : BitVec 8 => x.getLsbD (l % 8)) (byteAt_setBit_of_ne ha)

/-- Clearing a bit changes no other bit. -/
theorem bitAt_clearBit_of_ne (h : BitNe ptr k q l) :
    bitAt (clearBit mem ptr k) q l = bitAt mem q l := by
  by_cases ha : byteAddress q (l / 8) = byteAddress ptr (k / 8)
  · have hl : k % 8 ≠ l % 8 := fun e => (h.resolve_left (not_not_intro ha)) e.symm
    unfold bitAt byteAt clearBit
    rw [ha, Function.update_self, getLsbD_and_not_bit _ (Nat.mod_lt l (by norm_num)),
      decide_eq_true hl, Bool.and_true]
    rfl
  · exact congrArg (fun x : BitVec 8 => x.getLsbD (l % 8)) (byteAt_clearBit_of_ne ha)

/-- Two bits of one bitmap are different bits. -/
theorem bitNe_of_ne (hk : k / 8 < 2 ^ 64) (hl : l / 8 < 2 ^ 64) (h : l ≠ k) :
    BitNe ptr k ptr l := by
  by_cases hd : l / 8 = k / 8
  · exact Or.inr fun hm => h (by omega)
  · refine Or.inl fun e => hd ?_
    rwa [byteAddress_inj hl hk] at e

/-- **Setting a bit clears none.** -/
theorem bitAt_setBit_mono (h : bitAt mem q l = true) : bitAt (setBit mem ptr k) q l = true := by
  by_cases hne : BitNe ptr k q l
  · rw [bitAt_setBit_of_ne hne, h]
  · unfold BitNe at hne
    push Not at hne
    have := bitAt_setBit_self mem ptr k
    unfold bitAt byteAt at this ⊢
    rwa [hne.1, hne.2]

/-- A byte with all bits set keeps them when a bit is set. -/
theorem byteAt_setBit_allOnes {b : ℕ} (h : byteAt mem q b = 0xFF#8) :
    byteAt (setBit mem ptr k) q b = 0xFF#8 := by
  rw [eq_allOnes_iff]
  intro j hj
  rw [← bitAt_mul_add _ _ _ hj]
  apply bitAt_setBit_mono
  rw [bitAt_mul_add _ _ _ hj]
  exact (eq_allOnes_iff _).mp h j hj

/-- Clearing a bit that was set undoes it, if the bit was clear before. -/
theorem clearBit_setBit (h : bitAt mem ptr k = false) :
    clearBit (setBit mem ptr k) ptr k = mem := by
  have hbyte : byteAt (setBit mem ptr k) ptr (k / 8) &&& ~~~(1#8 <<< (k % 8))
      = byteAt mem ptr (k / 8) := by
    apply BitVec.eq_of_getLsbD_eq
    intro j hj
    rw [getLsbD_and_not_bit _ hj]
    unfold byteAt setBit
    rw [Function.update_self, getLsbD_or_bit _ hj]
    by_cases hjk : k % 8 = j
    · rw [decide_eq_false (not_not_intro hjk), Bool.and_false, ← hjk]
      exact h.symm
    · rw [decide_eq_false hjk, decide_eq_true hjk, Bool.or_false, Bool.and_true]
      rfl
  unfold clearBit
  rw [hbyte]
  unfold setBit
  rw [Function.update_idem]
  exact Function.update_eq_self _ _

end Write

/-! ## Writing the first bits -/

section WriteFirst

variable {mem : ByteMemory} {ptr q : BitVec 64} {k l t b : ℕ}

/-- The first bits are set. -/
theorem bitAt_setBits_of_lt (h : k < t) : bitAt (setBits mem ptr t) ptr k = true := by
  induction t with
  | zero => exact absurd h (Nat.not_lt_zero k)
  | succ t ih =>
    obtain hlt | rfl := Nat.lt_succ_iff_lt_or_eq.mp h
    · exact bitAt_setBit_mono (ih hlt)
    · exact bitAt_setBit_self _ _ _

/-- Every other bit is as it was. -/
theorem bitAt_setBits_of_ne (h : ∀ k < t, BitNe ptr k q l) :
    bitAt (setBits mem ptr t) q l = bitAt mem q l := by
  induction t with
  | zero => rfl
  | succ t ih =>
    rw [setBits, bitAt_setBit_of_ne (h t (Nat.lt_succ_self t)),
      ih fun k hk => h k (Nat.lt_succ_of_lt hk)]

theorem byteAt_setBits_allOnes (h : byteAt mem q b = 0xFF#8) :
    byteAt (setBits mem ptr t) q b = 0xFF#8 := by
  induction t with
  | zero => exact h
  | succ t ih => exact byteAt_setBit_allOnes ih

end WriteFirst

/-! ## Filling -/

/-- A byte of the filled range. -/
theorem byteAt_fill {mem : ByteMemory} {ptr : BitVec 64} {v : BitVec 8} {b size : ℕ}
    (hb : b < size) (hs : size ≤ 2 ^ 64) : byteAt (fill mem ptr v size) ptr b = v := by
  unfold byteAt fill
  rw [if_pos]
  rw [byteAddress_sub, Nat.mod_eq_of_lt (by omega)]
  exact hb

/-- A byte outside the filled range. -/
theorem byteAt_fill_of_ne {mem : ByteMemory} {ptr q : BitVec 64} {v : BitVec 8} {b size : ℕ}
    (h : ∀ c < size, byteAddress q b ≠ byteAddress ptr c) :
    byteAt (fill mem ptr v size) q b = byteAt mem q b := by
  unfold byteAt fill
  rw [if_neg]
  intro hlt
  apply h _ hlt
  rw [byteAddress.eq_def ptr, BitVec.ofNat_toNat, BitVec.setWidth_eq, BitVec.add_comm,
    BitVec.sub_add_cancel]

/-! ## Counting clear bits -/

section Count

variable {mem mem' : ByteMemory} {ptr : BitVec 64} {k n : ℕ}

theorem clearCount_congr (h : ∀ l < n, bitAt mem' ptr l = bitAt mem ptr l) :
    clearCount mem' ptr n = clearCount mem ptr n := by
  unfold clearCount
  congr 1
  refine Finset.filter_congr fun l hl => ?_
  rw [h l (Finset.mem_range.mp hl)]

theorem clearCount_le (mem : ByteMemory) (ptr : BitVec 64) (n : ℕ) : clearCount mem ptr n ≤ n := by
  have h := Finset.card_filter_le (Finset.range n) fun k => bitAt mem ptr k = false
  rwa [Finset.card_range] at h

theorem clearCount_of_clear (h : ∀ l < n, bitAt mem ptr l = false) : clearCount mem ptr n = n := by
  unfold clearCount
  rw [Finset.filter_true_of_mem fun l hl => h l (Finset.mem_range.mp hl), Finset.card_range]

theorem clearCount_of_set (h : ∀ l < n, bitAt mem ptr l = true) : clearCount mem ptr n = 0 := by
  unfold clearCount
  rw [Finset.card_eq_zero, Finset.filter_eq_empty_iff]
  intro l hl
  rw [h l (Finset.mem_range.mp hl)]
  exact Bool.noConfusion

/-- The count is zero exactly if no bit is clear. -/
theorem clearCount_eq_zero_iff : clearCount mem ptr n = 0 ↔ ∀ l < n, bitAt mem ptr l = true := by
  refine ⟨fun h l hl => ?_, clearCount_of_set⟩
  unfold clearCount at h
  rw [Finset.card_eq_zero, Finset.filter_eq_empty_iff] at h
  exact Bool.eq_true_of_not_eq_false (h (Finset.mem_range.mpr hl))

/-- Where only the first bits can be clear, there are not more of them. -/
theorem clearCount_le_of_clear_lt {m : ℕ} (h : ∀ l < n, bitAt mem ptr l = false → l < m) :
    clearCount mem ptr n ≤ m := by
  have hsub : ((Finset.range n).filter fun l => bitAt mem ptr l = false) ⊆ Finset.range m := by
    intro l hl
    rw [Finset.mem_filter, Finset.mem_range] at hl
    exact Finset.mem_range.mpr (h l hl.1 hl.2)
  have hcard := Finset.card_le_card hsub
  rwa [Finset.card_range] at hcard

/-- Setting a clear bit takes one from the count. -/
theorem clearCount_setBit (hk : k < n) (hn : n ≤ 2 ^ 64) (hc : bitAt mem ptr k = false) :
    clearCount (setBit mem ptr k) ptr n + 1 = clearCount mem ptr n := by
  have hmem : k ∈ (Finset.range n).filter fun l => bitAt mem ptr l = false := by
    rw [Finset.mem_filter, Finset.mem_range]
    exact ⟨hk, hc⟩
  have herase : (Finset.range n).filter (fun l => bitAt (setBit mem ptr k) ptr l = false)
      = ((Finset.range n).filter fun l => bitAt mem ptr l = false).erase k := by
    ext l
    rw [Finset.mem_erase, Finset.mem_filter, Finset.mem_filter, Finset.mem_range]
    by_cases hlk : l = k
    · simp [hlk]
    · constructor
      · rintro ⟨hl, hb⟩
        rw [bitAt_setBit_of_ne (bitNe_of_ne (by omega) (by omega) hlk)] at hb
        exact ⟨hlk, hl, hb⟩
      · rintro ⟨-, hl, hb⟩
        rw [bitAt_setBit_of_ne (bitNe_of_ne (by omega) (by omega) hlk)]
        exact ⟨hl, hb⟩
  unfold clearCount
  rw [herase, Finset.card_erase_add_one hmem]

/-- Setting the first bits, all of them clear, takes their number from the
count. -/
theorem clearCount_setBits {t : ℕ} (ht : t ≤ n) (hn : n ≤ 2 ^ 64)
    (hc : ∀ l < t, bitAt mem ptr l = false) :
    clearCount (setBits mem ptr t) ptr n + t = clearCount mem ptr n := by
  induction t with
  | zero => rfl
  | succ t ih =>
    have hprev := ih (by omega) fun l hl => hc l (Nat.lt_succ_of_lt hl)
    have hclear : bitAt (setBits mem ptr t) ptr t = false := by
      rw [bitAt_setBits_of_ne fun l hl => bitNe_of_ne (by omega) (by omega) (Nat.ne_of_gt hl)]
      exact hc t (Nat.lt_succ_self t)
    have hstep := clearCount_setBit ht hn hclear
    rw [← hprev, ← hstep, setBits]
    omega

/-- Clearing a set bit adds one to the count. -/
theorem clearCount_clearBit (hk : k < n) (hn : n ≤ 2 ^ 64) (hc : bitAt mem ptr k = true) :
    clearCount (clearBit mem ptr k) ptr n = clearCount mem ptr n + 1 := by
  have hnot : k ∉ (Finset.range n).filter fun l => bitAt mem ptr l = false := by
    rw [Finset.mem_filter, hc]
    simp
  have hinsert : (Finset.range n).filter (fun l => bitAt (clearBit mem ptr k) ptr l = false)
      = insert k ((Finset.range n).filter fun l => bitAt mem ptr l = false) := by
    ext l
    rw [Finset.mem_insert, Finset.mem_filter, Finset.mem_filter, Finset.mem_range]
    by_cases hlk : l = k
    · simp [hlk, hk]
    · rw [or_iff_right hlk]
      constructor
      · rintro ⟨hl, hb⟩
        rw [bitAt_clearBit_of_ne (bitNe_of_ne (by omega) (by omega) hlk)] at hb
        exact ⟨hl, hb⟩
      · rintro ⟨hl, hb⟩
        rw [bitAt_clearBit_of_ne (bitNe_of_ne (by omega) (by omega) hlk)]
        exact ⟨hl, hb⟩
  unfold clearCount
  rw [hinsert, Finset.card_insert_of_notMem hnot]

end Count

end Bitmap
