import Joes.Bitmap

/-!
# Moving memory

`memmove` copies a range of bytes to another one, from its first byte on or from
its last one, so that no byte is overwritten that is still to be copied. Either
way the memory after it is the one before with the range in another place
(`memmove_copies`), however the two ranges overlap.

The loops have one invariant in common: the memory is the one before with a part of
the range copied (`ByteMemory.copied`), from the first byte to the index or from the
index to the last byte. An iteration makes that part longer by one byte, provided that
the byte it reads has not been written (`ByteMemory.update_copied`). This is what the
comparison of the two addresses is for. To a lower address the loop goes up, and the
byte it reads lies beyond all that were written (`memmoveUp_eq`); to a higher one it
goes down, and the byte lies below them (`memmoveDown_eq`). Beyond and below are meant
without a wrap around, so neither range may go past the end of the address space. Where
the addresses are the same nothing is copied, and nothing has to be.
-/

/-- The loop of `memmove` from the first byte on, with the iterations that are
left. -/
def memmoveUp (dest src : BitVec 64) : ℕ → BitVec 64 → ByteMemory → ByteMemory
  | 0, _, mem => mem
  | n + 1, i, mem =>
    memmoveUp dest src n (i + 1#64) (Function.update mem (dest + i) (mem (src + i)))

/-- The loop of `memmove` from the last byte on, with the iterations that are
left. -/
def memmoveDown (dest src : BitVec 64) : ℕ → BitVec 64 → ByteMemory → ByteMemory
  | 0, _, mem => mem
  | n + 1, i, mem =>
    memmoveDown dest src n (i - 1#64)
      (Function.update mem (dest + (i - 1#64)) (mem (src + (i - 1#64))))

/-- `memmove`, with what it returns and the memory after it. -/
def memmove (dest src n : BitVec 64) (mem : ByteMemory) : BitVec 64 × ByteMemory :=
  if dest < src then (dest, memmoveUp dest src n.toNat 0#64 mem)
  else if src < dest then (dest, memmoveDown dest src n.toNat n mem)
  else (dest, mem)

/-! ## The copy -/

/-- **The memory with a part of a range copied**: the bytes from the offset `lo` to
the offset `hi`. -/
def ByteMemory.copied (mem : ByteMemory) (dest src : BitVec 64) (lo hi : ℕ) : ByteMemory := fun a =>
  if lo ≤ (a - dest).toNat ∧ (a - dest).toNat < hi then mem (src + (a - dest)) else mem a

namespace ByteMemory

variable {mem : ByteMemory} {dest src i : BitVec 64} {lo hi : ℕ}

/-- Where nothing is copied, nothing changes. -/
theorem copied_of_le (h : hi ≤ lo) : mem.copied dest src lo hi = mem := by
  funext a
  exact if_neg (by omega)

/-- A range copied to itself. -/
theorem copied_self : mem.copied dest dest lo hi = mem := by
  funext a
  unfold copied
  split
  · rw [BitVec.add_comm, BitVec.sub_add_cancel]
  · rfl

/-- **One more byte**, which was not overwritten before. -/
theorem update_copied (lo' hi' : ℕ)
    (hkept : ¬ (lo ≤ (src + i - dest).toNat ∧ (src + i - dest).toNat < hi))
    (hnext : ∀ k : ℕ, lo' ≤ k ∧ k < hi' ↔ k = i.toNat ∨ lo ≤ k ∧ k < hi) :
    Function.update (mem.copied dest src lo hi) (dest + i) (mem.copied dest src lo hi (src + i))
      = mem.copied dest src lo' hi' := by
  have hread : mem.copied dest src lo hi (src + i) = mem (src + i) := if_neg hkept
  rw [hread]
  funext a
  have hoffset : a - dest = i ↔ a = dest + i := by bv_omega
  unfold copied
  by_cases ha : a = dest + i
  · have hi' : a - dest = i := hoffset.mpr ha
    rw [if_pos ((hnext _).mpr (.inl (by rw [hi']))), hi', ha, Function.update_self]
  · have hne : (a - dest).toNat ≠ i.toNat := fun h =>
      ha (hoffset.mp (BitVec.eq_of_toNat_eq h))
    rw [Function.update_of_ne ha]
    by_cases hin : lo ≤ (a - dest).toNat ∧ (a - dest).toNat < hi
    · rw [if_pos hin, if_pos ((hnext _).mpr (.inr hin))]
    · rw [if_neg hin, if_neg fun h => ((hnext _).mp h).elim hne hin]

end ByteMemory

/-! ## The loops -/

section Memmove

variable {mem : ByteMemory} {dest src : BitVec 64}

/-- **Forwards**: to a lower address, every byte is copied before it is
overwritten. -/
theorem memmoveUp_eq {n : ℕ} {i : BitVec 64} (hlt : dest < src)
    (hsrc : src.toNat + i.toNat + n ≤ 2 ^ 64) :
    memmoveUp dest src n i (mem.copied dest src 0 i.toNat)
      = mem.copied dest src 0 (i.toNat + n) := by
  induction n generalizing i with
  | zero => rfl
  | succ n ih =>
    have hnext : (i + 1#64).toNat = i.toNat + 1 := by bv_omega
    -- the byte to copy lies beyond those that were written
    have hkept : ¬ (0 ≤ (src + i - dest).toNat ∧ (src + i - dest).toNat < i.toNat) := by bv_omega
    rw [memmoveUp, ByteMemory.update_copied 0 (i + 1#64).toNat hkept fun k => by omega,
      ih (by omega), hnext, Nat.add_assoc, Nat.add_comm 1 n]

/-- **Backwards**: to a higher address, too. -/
theorem memmoveDown_eq {n hi : ℕ} {i : BitVec 64} (hlt : src < dest) (hle : i.toNat ≤ hi)
    (hdest : dest.toNat + hi ≤ 2 ^ 64) (hn : n ≤ i.toNat) :
    memmoveDown dest src n i (mem.copied dest src i.toNat hi)
      = mem.copied dest src (i.toNat - n) hi := by
  induction n generalizing i with
  | zero => rfl
  | succ n ih =>
    have hnext : (i - 1#64).toNat = i.toNat - 1 := by bv_omega
    -- the byte to copy lies below those that were written
    have hkept : ¬ (i.toNat ≤ (src + (i - 1#64) - dest).toNat ∧
        (src + (i - 1#64) - dest).toNat < hi) := by bv_omega
    rw [memmoveDown, ByteMemory.update_copied (i - 1#64).toNat hi hkept fun k => by omega,
      ih (by omega) (by omega), hnext]
    congr 1
    omega

/-- **`memmove`** copies the range, and nothing else changes. -/
theorem memmove_eq {n : BitVec 64} (hdest : dest.toNat + n.toNat ≤ 2 ^ 64)
    (hsrc : src.toNat + n.toNat ≤ 2 ^ 64) :
    memmove dest src n mem = (dest, mem.copied dest src 0 n.toNat) := by
  unfold memmove
  split
  · next hlt =>
    have hup : memmoveUp dest src n.toNat 0#64 (mem.copied dest src 0 0)
        = mem.copied dest src 0 (0 + n.toNat) := memmoveUp_eq hlt (by simpa using hsrc)
    rw [ByteMemory.copied_of_le le_rfl, Nat.zero_add] at hup
    rw [hup]
  · next hnot =>
    split
    · next hlt =>
      have hdown : memmoveDown dest src n.toNat n (mem.copied dest src n.toNat n.toNat)
          = mem.copied dest src (n.toNat - n.toNat) n.toNat :=
        memmoveDown_eq hlt le_rfl hdest le_rfl
      rw [ByteMemory.copied_of_le le_rfl, Nat.sub_self] at hdown
      rw [hdown]
    · next hnot' =>
      obtain rfl : dest = src := by bv_omega
      rw [ByteMemory.copied_self]

/-- **`memmove` copies across any overlap**: the range at `dest` holds what the one
at `src` held, every other byte is what it was, and `dest` is returned. -/
theorem memmove_copies (mem : ByteMemory) (dest src n : BitVec 64)
    (hdest : dest.toNat + n.toNat ≤ 2 ^ 64) (hsrc : src.toNat + n.toNat ≤ 2 ^ 64) :
    (memmove dest src n mem).1 = dest ∧
      (∀ i < n, (memmove dest src n mem).2 (dest + i) = mem (src + i)) ∧
      ∀ a : BitVec 64, (a.toNat < dest.toNat ∨ dest.toNat + n.toNat ≤ a.toNat) →
        (memmove dest src n mem).2 a = mem a := by
  rw [memmove_eq hdest hsrc]
  refine ⟨rfl, fun i hi => ?_, fun a ha => if_neg ?_⟩
  · have hoffset : dest + i - dest = i := by bv_omega
    have hin : 0 ≤ (dest + i - dest).toNat ∧ (dest + i - dest).toNat < n.toNat := by bv_omega
    show (if _ then _ else _) = _
    rw [if_pos hin, hoffset]
  · bv_omega

end Memmove

/-- Sixteen bytes moved by one, over themselves. -/
theorem memmove_copies_overlap :
    (memmove 0x1001#64 0x1000#64 16#64 fun a => a.setWidth 8).2 0x1010#64 = 0x0f#8 :=
  (memmove_copies (fun a => a.setWidth 8) 0x1001#64 0x1000#64 16#64 (by decide)
    (by decide)).2.1 15#64 (by decide)
