import Joes.BitField
import Joes.Bitmap

/-!
# A stack of words

A machine has registers, a stack pointer and a memory of bytes, and pushes and pops
words of 64 bits, with the lowest byte first. The stack grows downwards.

`Words` says which words lie behind an address. The registers that are pushed lie behind
the stack pointer (`Holds.pushRegs`), and what lies there is popped (`Holds.popRegs`). So
registers that are pushed and then popped in the reverse order have the values from
before, whatever was done to them, if the words are still there.

Addresses wrap around, so a place on the stack is given by its offset from an address
(`byteAddress`), and different offsets below `2 ^ 64` are different places. A push changes
the eight bytes below the stack pointer and no others, and it keeps what lies behind the
pointer if all of that, with the new word, fits the address space (`Words.store`). What an
interrupted program has in its memory is not only words, so a stack that has grown is also
said to have every byte behind the old pointer as it was (`Grown`), which is carried through
any number of pushes (`Grown.trans`).
-/

namespace WordStack

open Bitmap

/-! ## Words in memory -/

/-- The bytes behind an address, as a number. -/
def load (mem : ByteMemory) : (n : ℕ) → BitVec 64 → BitVec (8 * n)
  | 0, _ => 0#0
  | n + 1, a => load mem n (a + 1#64) ++ mem a

/-- The word at an address. -/
def loadWord (mem : ByteMemory) (a : BitVec 64) : BitVec 64 := load mem 8 a

/-- The memory with a word written to an address. -/
def storeWord (mem : ByteMemory) (a v : BitVec 64) : ByteMemory := fun x =>
  if (x - a).toNat < 8 then BitField.read v (8 * (x - a).toNat) 8 else mem x

/-- **The words behind an address.** -/
def Words (mem : ByteMemory) : BitVec 64 → List (BitVec 64) → Prop
  | _, [] => True
  | a, w :: ws => loadWord mem a = w ∧ Words mem (a + 8#64) ws

section Memory

variable {mem mem' : ByteMemory} {a b v : BitVec 64} {ws ws' : List (BitVec 64)}

/-- What is loaded depends on the bytes there. -/
theorem load_congr {n : ℕ} (h : ∀ k < n, mem' (byteAddress a k) = mem (byteAddress a k)) :
    load mem' n a = load mem n a := by
  induction n generalizing a with
  | zero => rfl
  | succ n ih =>
    have hzero : mem' a = mem a := by
      have h := h 0 (Nat.succ_pos n)
      rwa [show byteAddress a 0 = a from BitVec.add_zero a] at h
    have hrest : ∀ k < n, mem' (byteAddress (a + 1#64) k) = mem (byteAddress (a + 1#64) k) := by
      intro k hk
      have h := h (1 + k) (by omega)
      rwa [← byteAddress_byteAddress] at h
    rw [load, load, hzero, ih hrest]

/-- Bytes that are those of a number. -/
theorem load_eq_read {n lo : ℕ}
    (h : ∀ k < n, mem (byteAddress a k) = BitField.read v (lo + 8 * k) 8) :
    load mem n a = BitField.read v lo (8 * n) := by
  induction n generalizing a lo with
  | zero => exact (BitVec.eq_nil _).trans (BitVec.eq_nil _).symm
  | succ n ih =>
    have hzero : mem a = BitField.read v lo 8 := by
      have h := h 0 (Nat.succ_pos n)
      rwa [show byteAddress a 0 = a from BitVec.add_zero a] at h
    have hrest : ∀ k < n, mem (byteAddress (a + 1#64) k) = BitField.read v (lo + 8 + 8 * k) 8 := by
      intro k hk
      have h := h (1 + k) (by omega)
      rw [← byteAddress_byteAddress, Nat.mul_add, ← Nat.add_assoc] at h
      exact h
    rw [load, hzero, ih hrest]
    exact BitField.read_append_read v lo

/-- **What is written is read back.** -/
theorem loadWord_storeWord (mem : ByteMemory) (a v : BitVec 64) :
    loadWord (storeWord mem a v) a = v := by
  have hread : load (storeWord mem a v) 8 a = BitField.read v 0 (8 * 8) := by
    refine load_eq_read fun k hk => ?_
    have hoff : (byteAddress a k - a).toNat = k := by
      rw [byteAddress_sub]
      exact Nat.mod_eq_of_lt (by omega)
    rw [storeWord, hoff, if_pos hk, Nat.zero_add]
  exact hread.trans (BitField.read_zero v)

/-- The words behind an address depend on the bytes there. -/
theorem Words.congr (h : Words mem a ws)
    (hmem : ∀ k < 8 * ws.length, mem' (byteAddress a k) = mem (byteAddress a k)) :
    Words mem' a ws := by
  induction ws generalizing a with
  | nil => trivial
  | cons w ws ih =>
    rw [List.length_cons, Nat.mul_succ] at hmem
    refine ⟨?_, ih h.2 fun k hk => ?_⟩
    · rw [← h.1]
      exact load_congr fun k hk => hmem k (by omega)
    · have hk := hmem (8 + k) (by omega)
      rwa [← byteAddress_byteAddress] at hk

/-- Only the eight bytes of the word change. -/
theorem storeWord_byteAddress {k : ℕ} (hlo : 8 ≤ k) (hhi : k < 2 ^ 64) :
    storeWord mem a v (byteAddress a k) = mem (byteAddress a k) := by
  rw [storeWord, byteAddress_sub, Nat.mod_eq_of_lt hhi]
  exact if_neg (Nat.not_lt.mpr hlo)

/-- **A word that is written below others.** -/
theorem Words.store (h : Words mem (a + 8#64) ws) (hlen : 8 * (ws.length + 1) ≤ 2 ^ 64)
    (v : BitVec 64) : Words (storeWord mem a v) a (v :: ws) := by
  refine ⟨loadWord_storeWord mem a v, h.congr fun k hk => ?_⟩
  have hword : byteAddress (a + 8#64) k = byteAddress a (8 + k) := byteAddress_byteAddress a 8 k
  rw [hword]
  exact storeWord_byteAddress (Nat.le_add_right 8 k) (by omega)

end Memory

/-! ## The machine -/

/-- **A machine with a stack.** -/
structure StackMachine (ρ : Type*) where
  regs : ρ → BitVec 64
  sp : BitVec 64
  mem : ByteMemory

namespace StackMachine

variable {ρ : Type*} {s s' s'' : StackMachine ρ} {v : BitVec 64} {ws : List (BitVec 64)}
  {rs : List ρ}
  {m n : ℕ}

/-- Pushes a value. -/
def push (v : BitVec 64) (s : StackMachine ρ) : StackMachine ρ :=
  { s with sp := s.sp - 8#64, mem := storeWord s.mem (s.sp - 8#64) v }

/-- The words behind the stack pointer. -/
def Holds (s : StackMachine ρ) (ws : List (BitVec 64)) : Prop := Words s.mem s.sp ws

/-- **A stack that has grown** by a number of bytes: nothing else has changed. -/
structure Grown (n : ℕ) (s s' : StackMachine ρ) : Prop where
  regs : s'.regs = s.regs
  sp : s'.sp = s.sp - BitVec.ofNat 64 n
  mem : ∀ k, k + n < 2 ^ 64 → s'.mem (byteAddress s.sp k) = s.mem (byteAddress s.sp k)

theorem Grown.refl (s : StackMachine ρ) : Grown 0 s s :=
  ⟨rfl, (BitVec.sub_zero s.sp).symm, fun _ _ => rfl⟩

theorem Grown.trans (h : Grown m s s') (h' : Grown n s' s'') : Grown (m + n) s s'' where
  regs := h'.regs.trans h.regs
  sp := by rw [h'.sp, h.sp, BitVec.ofNat_add, BitVec.sub_sub]
  mem k hk := by
    have hsp : byteAddress s.sp k = byteAddress s'.sp (m + k) := by
      rw [h.sp, ← byteAddress_byteAddress]
      exact congrArg (byteAddress · k) (BitVec.sub_add_cancel s.sp _).symm
    rw [← h.mem k (by omega), hsp]
    exact h'.mem (m + k) (by omega)

theorem grown_push (v : BitVec 64) (s : StackMachine ρ) : Grown 8 s (s.push v) where
  regs := rfl
  sp := rfl
  mem k hk := by
    have hsp : byteAddress s.sp k = byteAddress (s.sp - 8#64) (8 + k) := by
      rw [← byteAddress_byteAddress]
      exact congrArg (byteAddress · k) (BitVec.sub_add_cancel s.sp _).symm
    rw [hsp]
    exact storeWord_byteAddress (Nat.le_add_right 8 k) (by omega)

/-- **A value that is pushed** lies on top. -/
theorem Holds.push (h : s.Holds ws) (hlen : 8 * (ws.length + 1) ≤ 2 ^ 64) (v : BitVec 64) :
    (s.push v).Holds (v :: ws) := by
  refine Words.store ?_ hlen v
  rwa [BitVec.sub_add_cancel]

/-- The registers are pushed, the first one first. -/
def pushRegs (rs : List ρ) (s : StackMachine ρ) : StackMachine ρ :=
  rs.foldl (fun s r => s.push (s.regs r)) s

theorem grown_pushRegs (rs : List ρ) (s : StackMachine ρ) :
    Grown (8 * rs.length) s (s.pushRegs rs) := by
  induction rs generalizing s with
  | nil => exact .refl s
  | cons r rs ih =>
    rw [List.length_cons, Nat.mul_succ, Nat.add_comm]
    exact (grown_push (s.regs r) s).trans (ih _)

/-- **The registers that are pushed** lie on the stack, the last one on top. -/
theorem Holds.pushRegs (h : s.Holds ws) (hlen : 8 * (ws.length + rs.length) ≤ 2 ^ 64) :
    (s.pushRegs rs).Holds (rs.reverse.map s.regs ++ ws) := by
  induction rs generalizing s ws with
  | nil => exact h
  | cons r rs ih =>
    rw [List.length_cons] at hlen
    rw [List.reverse_cons, List.map_append, List.append_assoc]
    refine ih (h.push (by omega) (s.regs r)) ?_
    show 8 * (ws.length + 1 + rs.length) ≤ 2 ^ 64
    omega

variable [DecidableEq ρ]

/-- Pops a value into a register. -/
def pop (r : ρ) (s : StackMachine ρ) : StackMachine ρ :=
  { s with regs := Function.update s.regs r (loadWord s.mem s.sp), sp := s.sp + 8#64 }

/-- Registers are popped, the first one first. -/
def popRegs (rs : List ρ) (s : StackMachine ρ) : StackMachine ρ := rs.foldl (fun s r => s.pop r) s

/-- **The value on top** is popped. -/
theorem Holds.pop (h : s.Holds (v :: ws)) (r : ρ) :
    (s.pop r).regs = Function.update s.regs r v ∧ (s.pop r).Holds ws :=
  ⟨congrArg (Function.update s.regs r) h.1, h.2⟩

/-- **The registers that are popped** have the values that lay on the stack. -/
theorem Holds.popRegs {f : ρ → BitVec 64} (h : s.Holds (rs.map f ++ ws)) :
    (∀ r, (s.popRegs rs).regs r = if r ∈ rs then f r else s.regs r) ∧
      (s.popRegs rs).Holds ws := by
  induction rs generalizing s with
  | nil => exact ⟨fun r => rfl, h⟩
  | cons r rs ih =>
    obtain ⟨hregs, hpop⟩ := h.pop r
    obtain ⟨hrest, hholds⟩ := ih hpop
    refine ⟨fun r' => (hrest r').trans ?_, hholds⟩
    rw [hregs]
    by_cases hr' : r' ∈ rs
    · rw [if_pos hr', if_pos (List.mem_cons_of_mem r hr')]
    · rw [if_neg hr']
      by_cases hr : r' = r
      · rw [hr, Function.update_self, if_pos List.mem_cons_self]
      · rw [Function.update_of_ne hr, if_neg (by simp [hr, hr'])]

/-- Where the stack pointer is after it, and that nothing is written. -/
theorem popRegs_sp_mem (rs : List ρ) (s : StackMachine ρ) :
    (s.popRegs rs).sp = byteAddress s.sp (8 * rs.length) ∧ (s.popRegs rs).mem = s.mem := by
  induction rs generalizing s with
  | nil => exact ⟨(BitVec.add_zero s.sp).symm, rfl⟩
  | cons r rs ih =>
    obtain ⟨hsp, hmem⟩ := ih (s.pop r)
    refine ⟨hsp.trans ?_, hmem⟩
    rw [List.length_cons, Nat.mul_succ, Nat.add_comm, ← byteAddress_byteAddress]
    rfl

end StackMachine

end WordStack
