import Joes.Memmove

/-!
# The other memory functions

`memcpy` copies from the first byte on, whatever the two ranges are. Where the destination
starts within the source, it reads bytes that it has written, so the bytes up to there come
again and again, and it is `memmove` exactly for all other ranges (`memcpy_agrees_iff`).

`memcmp` stops at the first byte that is another one in the two ranges, so its result says
which of them is the lower one in lexicographic order (`memcmp_order`).
-/

/-- `memcpy`, with what it returns and the memory after it. Its loop is the one of `memmove`
from the first byte on. -/
def memcpy (dest src n : BitVec 64) (mem : ByteMemory) : BitVec 64 × ByteMemory :=
  (dest, memmoveUp dest src n.toNat 0#64 mem)

/-- The loop of `memset`, with the iterations that are left. -/
def memsetLoop (s : BitVec 64) (c : BitVec 8) : ℕ → BitVec 64 → ByteMemory → ByteMemory
  | 0, _, mem => mem
  | n + 1, i, mem => memsetLoop s c n (i + 1#64) (Function.update mem (s + i) c)

/-- `memset`, with what it returns and the memory after it. -/
def memset (s : BitVec 64) (c : BitVec 32) (n : BitVec 64) (mem : ByteMemory) :
    BitVec 64 × ByteMemory := (s, memsetLoop s (c.setWidth 8) n.toNat 0#64 mem)

/-- The loop of `memcmp`, with the iterations that are left. -/
def memcmpLoop (s1 s2 : BitVec 64) (mem : ByteMemory) : ℕ → BitVec 64 → ℤ
  | 0, _ => 0
  | n + 1, i =>
    if mem (s1 + i) ≠ mem (s2 + i) then if mem (s1 + i) < mem (s2 + i) then -1 else 1
    else memcmpLoop s1 s2 mem n (i + 1#64)

/-- `memcmp`. -/
def memcmp (s1 s2 n : BitVec 64) (mem : ByteMemory) : ℤ := memcmpLoop s1 s2 mem n.toNat 0#64

/-! ## Copies that repeat -/

/-- **The memory with a range repeated**: every byte of the range comes from the source, and
past the period from its start again. With no period it is a copy. -/
def ByteMemory.repeated (mem : ByteMemory) (dest src : BitVec 64) (period n : ℕ) : ByteMemory :=
  fun a =>
    if (a - dest).toNat < n then mem (src + BitVec.ofNat 64 ((a - dest).toNat % period)) else mem a

section Memcpy

variable {mem : ByteMemory} {dest src : BitVec 64}

/-- **One more byte**, which may be one that was written. -/
theorem ByteMemory.update_repeated {j : ℕ} (hdest : dest.toNat + j < 2 ^ 64)
    (hsrc : src.toNat + j < 2 ^ 64) :
    Function.update (mem.repeated dest src (dest.toNat - src.toNat) j) (dest + BitVec.ofNat 64 j)
        (mem.repeated dest src (dest.toNat - src.toNat) j (src + BitVec.ofNat 64 j))
      = mem.repeated dest src (dest.toNat - src.toNat) (j + 1) := by
  have hj : (BitVec.ofNat 64 j).toNat = j := by
    rw [BitVec.toNat_ofNat]
    exact Nat.mod_eq_of_lt (by omega)
  -- what is read is a byte of the source, or one that was written a period before
  have hread : mem.repeated dest src (dest.toNat - src.toNat) j (src + BitVec.ofNat 64 j)
      = mem (src + BitVec.ofNat 64 (j % (dest.toNat - src.toNat))) := by
    unfold repeated
    by_cases hin : (src + BitVec.ofNat 64 j - dest).toNat < j
    · have hback : (src + BitVec.ofNat 64 j - dest).toNat = j - (dest.toNat - src.toNat) := by
        bv_omega
      have hle : dest.toNat - src.toNat ≤ j := by bv_omega
      rw [if_pos hin, hback, ← Nat.mod_eq_sub_mod hle]
    · have hfirst : j % (dest.toNat - src.toNat) = j := by
        rcases Nat.eq_zero_or_pos (dest.toNat - src.toNat) with hzero | hpos
        · rw [hzero, Nat.mod_zero]
        · exact Nat.mod_eq_of_lt (by bv_omega)
      rw [if_neg hin, hfirst]
  rw [hread]
  funext a
  unfold repeated
  by_cases ha : a = dest + BitVec.ofNat 64 j
  · have hoffset : (a - dest).toNat = j := by bv_omega
    rw [ha, Function.update_self, ← ha, hoffset, if_pos (Nat.lt_succ_self j)]
  · have hoffset : (a - dest).toNat ≠ j := by bv_omega
    rw [Function.update_of_ne ha]
    exact if_congr (by omega) rfl rfl

theorem memmoveUp_repeated {n j : ℕ} (hdest : dest.toNat + (j + n) ≤ 2 ^ 64)
    (hsrc : src.toNat + (j + n) ≤ 2 ^ 64) :
    memmoveUp dest src n (BitVec.ofNat 64 j)
        (mem.repeated dest src (dest.toNat - src.toNat) j)
      = mem.repeated dest src (dest.toNat - src.toNat) (j + n) := by
  induction n generalizing j with
  | zero => rfl
  | succ n ih =>
    rw [memmoveUp, ByteMemory.update_repeated (by omega) (by omega),
      show BitVec.ofNat 64 j + 1#64 = BitVec.ofNat 64 (j + 1) from (BitVec.ofNat_add _ _).symm,
      ih (by omega) (by omega), Nat.add_right_comm, Nat.add_assoc]

/-- **`memcpy`** repeats what is before the destination. -/
theorem memcpy_eq {n : BitVec 64} (hdest : dest.toNat + n.toNat ≤ 2 ^ 64)
    (hsrc : src.toNat + n.toNat ≤ 2 ^ 64) :
    memcpy dest src n mem = (dest, mem.repeated dest src (dest.toNat - src.toNat) n.toNat) := by
  have hstart : mem.repeated dest src (dest.toNat - src.toNat) 0 = mem :=
    funext fun a => if_neg (Nat.not_lt_zero _)
  have hloop : memmoveUp dest src n.toNat (BitVec.ofNat 64 0)
      (mem.repeated dest src (dest.toNat - src.toNat) 0)
        = mem.repeated dest src (dest.toNat - src.toNat) (0 + n.toNat) :=
    memmoveUp_repeated (by omega) (by omega)
  rw [hstart, Nat.zero_add] at hloop
  rw [memcpy, hloop]

/-- **`memcpy` is `memmove`** on every memory exactly if the destination does not start
within the source. -/
theorem memcpy_agrees_iff (dest src n : BitVec 64) (hdest : dest.toNat + n.toNat ≤ 2 ^ 64)
    (hsrc : src.toNat + n.toNat ≤ 2 ^ 64) :
    (∀ mem, memcpy dest src n mem = memmove dest src n mem) ↔
      ¬ (src < dest ∧ dest.toNat < src.toNat + n.toNat) := by
  simp only [memcpy_eq hdest hsrc, memmove_eq hdest hsrc, Prod.mk.injEq, true_and]
  constructor
  · rintro h ⟨hlt, hin⟩
    -- the first byte of the source comes again where the destination has it read
    have hat := congrFun (h fun a => if a = src then 1#8 else 0#8) (dest + (dest - src))
    have hoffset : dest + (dest - src) - dest = dest - src := by bv_omega
    have hperiod : (dest - src).toNat = dest.toNat - src.toNat := by bv_omega
    have hlast : dest.toNat - src.toNat < n.toNat := by bv_omega
    have hne : src + (dest - src) ≠ src := by bv_omega
    unfold ByteMemory.repeated ByteMemory.copied at hat
    rw [hoffset, hperiod, if_pos hlast, if_pos ⟨Nat.zero_le _, hlast⟩, Nat.mod_self] at hat
    have hsame : 1#8 = 0#8 := calc
      1#8 = if src + 0#64 = src then 1#8 else 0#8 := (if_pos (BitVec.add_zero src)).symm
      _ = if src + (dest - src) = src then 1#8 else 0#8 := hat
      _ = 0#8 := if_neg hne
    exact absurd hsame (by decide)
  · intro h mem
    funext a
    unfold ByteMemory.repeated ByteMemory.copied
    by_cases hin : (a - dest).toNat < n.toNat
    · have hfirst : (a - dest).toNat % (dest.toNat - src.toNat) = (a - dest).toNat := by
        rcases Nat.eq_zero_or_pos (dest.toNat - src.toNat) with hzero | hpos
        · rw [hzero, Nat.mod_zero]
        · refine Nat.mod_eq_of_lt (hin.trans_le ?_)
          have hend : src.toNat + n.toNat ≤ dest.toNat := by
            by_contra hlt
            exact h ⟨BitVec.lt_def.mpr (by omega), by omega⟩
          omega
      rw [if_pos hin, if_pos ⟨Nat.zero_le _, hin⟩, hfirst, BitVec.ofNat_toNat, BitVec.setWidth_eq]
    · rw [if_neg hin, if_neg fun hin' => hin hin'.2]

end Memcpy

/-- Two ranges of which the one ends where the other one starts, in a memory where every byte
is the lowest one of its address. -/
theorem memcpy_agrees_iff_adjacent :
    memcpy 0x1010#64 0x1000#64 16#64 (fun a => a.setWidth 8)
      = memmove 0x1010#64 0x1000#64 16#64 fun a => a.setWidth 8 :=
  (memcpy_agrees_iff 0x1010#64 0x1000#64 16#64 (by decide) (by decide)).mpr (by decide) _

/-! ## Comparing -/

/-- The numbers of the bytes of a range. -/
def ByteMemory.range (mem : ByteMemory) (s : BitVec 64) : ℕ → BitVec 64 → List ℕ
  | 0, _ => []
  | n + 1, i => (mem (s + i)).toNat :: mem.range s n (i + 1#64)

/-- **The loop** compares what is left of the ranges. -/
theorem memcmpLoop_order (s1 s2 : BitVec 64) (mem : ByteMemory) (n : ℕ) (i : BitVec 64) :
    (memcmpLoop s1 s2 mem n i = -1 ↔ mem.range s1 n i < mem.range s2 n i) ∧
      (memcmpLoop s1 s2 mem n i = 0 ↔ mem.range s1 n i = mem.range s2 n i) ∧
      (memcmpLoop s1 s2 mem n i = 1 ↔ mem.range s2 n i < mem.range s1 n i) := by
  induction n generalizing i with
  | zero => exact ⟨by simp [memcmpLoop, ByteMemory.range], by simp [memcmpLoop, ByteMemory.range],
      by simp [memcmpLoop, ByteMemory.range]⟩
  | succ n ih =>
    rw [memcmpLoop, ByteMemory.range, ByteMemory.range, List.cons_lt_cons_iff,
      List.cons_lt_cons_iff, List.cons.injEq]
    rcases lt_trichotomy (mem (s1 + i)).toNat (mem (s2 + i)).toNat with hlt | heq | hgt
    · have hbyte : mem (s1 + i) < mem (s2 + i) := BitVec.lt_def.mpr hlt
      rw [if_pos (BitVec.ne_of_lt hbyte), if_pos hbyte]
      refine ⟨iff_of_true rfl (.inl hlt), iff_of_false (by decide) fun h => ?_,
        iff_of_false (by decide) fun h => ?_⟩ <;> omega
    · rw [if_neg (not_not.mpr (BitVec.eq_of_toNat_eq heq))]
      simpa only [heq, lt_irrefl, true_and, false_or] using ih (i + 1#64)
    · have hbyte : mem (s2 + i) < mem (s1 + i) := BitVec.lt_def.mpr hgt
      rw [if_pos (BitVec.ne_of_lt hbyte).symm, if_neg (BitVec.lt_asymm hbyte)]
      refine ⟨iff_of_false (by decide) fun h => ?_, iff_of_false (by decide) fun h => ?_,
        iff_of_true rfl (.inl hgt)⟩ <;> omega

/-- **`memcmp` orders the ranges** lexicographically: what it returns is -1, 0 or 1, as the
first range is lower, the same or higher. -/
theorem memcmp_order (s1 s2 n : BitVec 64) (mem : ByteMemory) :
    (memcmp s1 s2 n mem = -1 ↔ mem.range s1 n.toNat 0#64 < mem.range s2 n.toNat 0#64) ∧
      (memcmp s1 s2 n mem = 0 ↔ mem.range s1 n.toNat 0#64 = mem.range s2 n.toNat 0#64) ∧
      (memcmp s1 s2 n mem = 1 ↔ mem.range s2 n.toNat 0#64 < mem.range s1 n.toNat 0#64) :=
  memcmpLoop_order s1 s2 mem n.toNat 0#64
