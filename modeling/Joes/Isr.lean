import Joes.Gdt
import Joes.InterruptHandler
import Joes.WordStack

/-!
# The stubs of the interrupts

The CPU answers an interrupt with the gate of its vector: it saves what it is about to change
on the stack and goes on with the stub of the vector. The stub completes the frame, calls
`interrupt_handler` with it, and takes everything back. With the tables that `gdt_init` and
`idt_init` make, every interrupt gets to the handler with a frame that tells the whole state of
the program that was interrupted, and if the handler leaves the frame alone, the program goes on
in this state (`interrupt_transparent`).

There are two kinds of stubs, because with some exceptions the CPU pushes an error code. The
list of those in `isr.asm` is the one of the CPU (`mem_isrErrVectors_iff`), and every other stub
pushes a word in place of the error code, which is the vector once more. So the frame has the
same number of words in each case, and the stack is where `iretq` expects it when the vector and
that word are dropped.

What a stub has pushed is a list of words from the stack pointer on (`StackMachine.Holds`). A
word that is pushed is in front of those that were there, if the stack has room for it, and
popping takes it off again, so the registers that were pushed in one order and are popped in the
other one are what they were (`run_restore`). Between the two there is the call. The handler may
use the stack below the frame and change any memory but the frame, and nothing more is asked of
it: that the stack pointer is back and that the words of the frame are still there is all that
the way back depends on. The CPU aligns the stack pointer to 16 bytes before it pushes, and the
words it pushes and those of the stub are 22 together, so it is aligned at the call, too
(`toNat_aligned_sub`).
-/

open WordStack Bitmap

/-! ## The code -/

/-- The registers that a stub saves: all general ones but the stack pointer. -/
inductive Register where
  | rax | rbx | rcx | rdx | rsi | rdi | rbp | r8 | r9 | r10 | r11 | r12 | r13 | r14 | r15
  deriving DecidableEq, Repr

/-- The instructions in `isr.asm`, with the jump to `isr_common` left out. -/
inductive IsrInstruction where
  | pushQword (v : BitVec 64)
  | push (r : Register)
  | pop (r : Register)
  /-- `mov rdi, rsp`. -/
  | movRdiRsp
  /-- `call interrupt_handler`. -/
  | callInterruptHandler
  /-- `add rsp, n`. -/
  | addRsp (n : BitVec 64)
  | iretq
  deriving DecidableEq, Repr

/-- `isr_common`. -/
def isrCommon : List IsrInstruction :=
  [.push .rax, .push .rbx, .push .rcx, .push .rdx, .push .rsi, .push .rdi, .push .rbp, .push .r8,
   .push .r9, .push .r10, .push .r11, .push .r12, .push .r13, .push .r14, .push .r15,
   .movRdiRsp, .callInterruptHandler,
   .pop .r15, .pop .r14, .pop .r13, .pop .r12, .pop .r11, .pop .r10, .pop .r9, .pop .r8,
   .pop .rbp, .pop .rdi, .pop .rsi, .pop .rdx, .pop .rcx, .pop .rbx, .pop .rax,
   .addRsp 16#64, .iretq]

/-- The macro `isr_no_err`. -/
def isrNoErr (v : BitVec 8) : List IsrInstruction :=
  .pushQword (v.setWidth 64) :: .pushQword (v.setWidth 64) :: isrCommon

/-- The macro `isr_err`. -/
def isrErr (v : BitVec 8) : List IsrInstruction := .pushQword (v.setWidth 64) :: isrCommon

/-- The vectors whose stub is made by `isr_err`. -/
def isrErrVectors : List (BitVec 8) :=
  [0x08#8, 0x0a#8, 0x0b#8, 0x0c#8, 0x0d#8, 0x0e#8, 0x11#8, 0x15#8]

instance (v : BitVec 8) : Decidable (v ∈ isrErrVectors) :=
  decidable_of_iff (isrErrVectors.contains v = true) List.contains_iff_mem

/-- `_isr0x00` to `_isr0xff`. -/
def isr (v : BitVec 8) : List IsrInstruction :=
  if v ∈ isrErrVectors then isrErr v else isrNoErr v

/-- `idt_init`, given the addresses of the stubs. All of its calls are alike. -/
def idtInit (isrAddress : BitVec 8 → BitVec 64) (v : BitVec 8) : IdtGateDescriptor :=
  idtCreateEntry (isrAddress v) 0x8#16 0#8 ((idtAttributes 0#32 idtGateTypeIntGate).setWidth 8)

/-! ## The CPU -/

/-- **The state of the CPU**, as far as an interrupt is about it. -/
structure Cpu extends WordStack.StackMachine Register where
  rip : BitVec 64
  rflags : BitVec 64
  cs : BitVec 16
  ss : BitVec 16

namespace Cpu

/-- Pushes a value. -/
def push (v : BitVec 64) (s : Cpu) : Cpu := { s with toStackMachine := s.toStackMachine.push v }

/-- A step of a stub, where `handler` is what a call of `interrupt_handler` does until it
has returned. -/
def step (handler : Cpu → Cpu) (s : Cpu) : IsrInstruction → Cpu
  | .pushQword v => s.push v
  | .push r => s.push (s.regs r)
  | .pop r => { s with toStackMachine := s.toStackMachine.pop r }
  | .movRdiRsp => { s with regs := Function.update s.regs .rdi s.sp }
  | .callInterruptHandler => handler s
  | .addRsp n => { s with sp := s.sp + n }
  | .iretq =>
    { s with
      rip := loadWord s.mem s.sp
      cs := (loadWord s.mem (s.sp + 8#64)).setWidth 16
      rflags := loadWord s.mem (s.sp + 16#64)
      sp := loadWord s.mem (s.sp + 24#64)
      ss := (loadWord s.mem (s.sp + 32#64)).setWidth 16 }

/-- The steps of a stub. -/
def run (handler : Cpu → Cpu) (code : List IsrInstruction) (s : Cpu) : Cpu :=
  code.foldl (step handler) s

/-- The exceptions with which the CPU pushes an error code. -/
def errorCodeVectors : List ℕ := [8, 10, 11, 12, 13, 14, 17, 21]

/-- The flags that an interrupt gate clears: TF, IF, NT, RF and VM. -/
def clearedFlags : BitVec 64 := 0x34300#64

/-- **The answer of the CPU** to an interrupt in the kernel, where the privilege level does
not change: it goes on with the handler of a gate that is present, in a segment of
64-bit code of the kernel. Otherwise there is another exception, which is not in
this model. -/
def deliver (gdt : List GdtDescriptor) (idt : BitVec 8 → IdtGateDescriptor) (v : BitVec 8)
    (errorCode : BitVec 64) (s : Cpu) : Option Cpu :=
  let gate := Gate.decode (idt v).word
  match segmentOf gdt gate.selector with
  | none => none
  | some segment =>
    if gate.present = 1#1 ∧ gate.gateType = 0xe#4 ∧ gate.ist = 0#3 ∧ segment.present ∧
        segment.isCode ∧ segment.isLong ∧ segment.dpl = 0#2 then
      let aligned : Cpu := { s with sp := s.sp &&& ~~~15#64 }
      let saved := ((((aligned.push (s.ss.setWidth 64)).push s.sp).push s.rflags).push
        (s.cs.setWidth 64)).push s.rip
      let pushed := if v.toNat ∈ errorCodeVectors then saved.push errorCode else saved
      some { pushed with
        rip := gate.offset
        cs := gate.selector
        rflags := s.rflags &&& ~~~clearedFlags }
    else none

end Cpu

/-- The words of a frame, in the order of its fields. -/
def InterruptStackFrame.words (f : InterruptStackFrame) : List (BitVec 64) :=
  [f.r15, f.r14, f.r13, f.r12, f.r11, f.r10, f.r9, f.r8, f.rbp, f.rdi, f.rsi, f.rdx, f.rcx, f.rbx,
   f.rax, f.interruptVector, f.errorCode, f.rip, f.cs, f.rflags, f.rsp, f.ss]

/-- **The frame of an interrupt**: the registers and what the CPU saves, with the vector,
and again the vector if there is no error code. -/
def Cpu.frame (s : Cpu) (v : BitVec 8) (errorCode : BitVec 64) : InterruptStackFrame where
  r15 := s.regs .r15
  r14 := s.regs .r14
  r13 := s.regs .r13
  r12 := s.regs .r12
  r11 := s.regs .r11
  r10 := s.regs .r10
  r9 := s.regs .r9
  r8 := s.regs .r8
  rbp := s.regs .rbp
  rdi := s.regs .rdi
  rsi := s.regs .rsi
  rdx := s.regs .rdx
  rcx := s.regs .rcx
  rbx := s.regs .rbx
  rax := s.regs .rax
  interruptVector := v.setWidth 64
  errorCode := if v ∈ isrErrVectors then errorCode else v.setWidth 64
  rip := s.rip
  cs := s.cs.setWidth 64
  rflags := s.rflags
  rsp := s.sp
  ss := s.ss.setWidth 64

/-! ## A stub -/

section Stub

variable {handler : Cpu → Cpu} {s d : Cpu} {v : BitVec 8} {ws : List (BitVec 64)}

/-- The registers in the order they are pushed. -/
def savedRegisters : List Register :=
  [.rax, .rbx, .rcx, .rdx, .rsi, .rdi, .rbp, .r8, .r9, .r10, .r11, .r12, .r13, .r14, .r15]

theorem isrCommon_eq :
    isrCommon = savedRegisters.map .push ++ (.movRdiRsp :: .callInterruptHandler ::
      (savedRegisters.reverse.map .pop ++ [.addRsp 16#64, .iretq])) := rfl

/-- The state after a stub has pushed what it pushes. -/
def Cpu.saved (v : BitVec 8) (d : Cpu) : Cpu :=
  let pushed := (if v ∈ isrErrVectors then d else d.push (v.setWidth 64)).push (v.setWidth 64)
  { pushed with toStackMachine := pushed.toStackMachine.pushRegs savedRegisters }

/-- Where the handler is called. -/
def Cpu.called (v : BitVec 8) (d : Cpu) : Cpu :=
  { d.saved v with regs := Function.update (d.saved v).regs .rdi (d.saved v).sp }

@[simp] theorem Cpu.called_rdi (v : BitVec 8) (d : Cpu) :
    (d.called v).regs .rdi = (d.saved v).sp := by
  rw [called]
  dsimp only
  rw [Function.update_self]

/-- The steps that push registers. -/
theorem run_push (rs : List Register) (s : Cpu) :
    s.run handler (rs.map .push) = { s with toStackMachine := s.toStackMachine.pushRegs rs } := by
  induction rs generalizing s with
  | nil => rfl
  | cons r rs ih => exact ih (s.push (s.regs r))

/-- The steps that pop registers. -/
theorem run_pop (rs : List Register) (s : Cpu) :
    s.run handler (rs.map .pop) = { s with toStackMachine := s.toStackMachine.popRegs rs } := by
  induction rs generalizing s with
  | nil => rfl
  | cons r rs ih => exact ih { s with toStackMachine := s.toStackMachine.pop r }

theorem run_append (xs ys : List IsrInstruction) (s : Cpu) :
    s.run handler (xs ++ ys) = (s.run handler xs).run handler ys := List.foldl_append

theorem run_cons (i : IsrInstruction) (xs : List IsrInstruction) (s : Cpu) :
    s.run handler (i :: xs) = (s.step handler i).run handler xs := rfl

/-- **A stub** calls the handler, and what is left to do is the same in each. -/
theorem run_isr (v : BitVec 8) (d : Cpu) :
    d.run handler (isr v) = (handler (d.called v)).run handler
      (savedRegisters.reverse.map .pop ++ [.addRsp 16#64, .iretq]) := by
  unfold isr Cpu.called Cpu.saved
  by_cases hv : v ∈ isrErrVectors
  · rw [if_pos hv, if_pos hv, isrErr, run_cons, isrCommon_eq, run_append, run_push, run_cons,
      run_cons]
    rfl
  · rw [if_neg hv, if_neg hv, isrNoErr, run_cons, run_cons, isrCommon_eq, run_append, run_push,
      run_cons, run_cons]
    rfl

/-- How far a stub lets the stack grow. -/
theorem grown_saved (v : BitVec 8) (d : Cpu) :
    StackMachine.Grown (if v ∈ isrErrVectors then 128 else 136) d.toStackMachine
      (d.saved v).toStackMachine := by
  have hregs : ∀ s : StackMachine Register, StackMachine.Grown 120 s (s.pushRegs savedRegisters) :=
    fun s => StackMachine.grown_pushRegs savedRegisters s
  unfold Cpu.saved
  by_cases hv : v ∈ isrErrVectors
  · rw [if_pos hv, if_pos hv]
    exact (StackMachine.grown_push _ _).trans (hregs _)
  · rw [if_neg hv, if_neg hv]
    exact ((StackMachine.grown_push _ _).trans (StackMachine.grown_push _ _)).trans (hregs _)

/-- **The words behind the stack pointer** at the call: the registers, the vector, and the
error code or again the vector. -/
theorem holds_called {errorCode : BitVec 64}
    (h : d.Holds (if v ∈ isrErrVectors then errorCode :: ws else ws)) (hlen : ws.length ≤ 5) :
    (d.called v).Holds (savedRegisters.reverse.map d.regs ++
      (v.setWidth 64 :: (if v ∈ isrErrVectors then errorCode else v.setWidth 64) :: ws)) := by
  have hpushed : ((if v ∈ isrErrVectors then d else d.push (v.setWidth 64)).push
      (v.setWidth 64)).Holds
        (v.setWidth 64 :: (if v ∈ isrErrVectors then errorCode else v.setWidth 64) :: ws) := by
    split
    · next hv =>
      rw [if_pos hv] at h
      exact h.push (by rw [List.length_cons]; omega) _
    · next hv =>
      rw [if_neg hv] at h
      exact (h.push (by omega) _).push (by rw [List.length_cons]; omega) _
  have hregs : ((if v ∈ isrErrVectors then d else d.push (v.setWidth 64)).push
      (v.setWidth 64)).regs = d.regs := by
    split <;> rfl
  have hroom : 8 * ((v.setWidth 64 :: (if v ∈ isrErrVectors then errorCode else v.setWidth 64) ::
      ws).length + savedRegisters.length) ≤ 2 ^ 64 := by
    rw [List.length_cons, List.length_cons, show savedRegisters.length = 15 from rfl]
    omega
  have hsaved := hpushed.pushRegs hroom
  rwa [hregs] at hsaved

/-- **What is left to do** after the call: if the words are still there, they say what the
state is. -/
theorem run_restore {k : Cpu} {f : Register → BitVec 64} {a b rip cs rflags rsp ss : BitVec 64}
    (h : k.Holds (savedRegisters.reverse.map f ++ [a, b, rip, cs, rflags, rsp, ss])) :
    k.run handler (savedRegisters.reverse.map .pop ++ [.addRsp 16#64, .iretq]) =
      { regs := f, sp := rsp, mem := k.mem, rip := rip, rflags := rflags, cs := cs.setWidth 16,
        ss := ss.setWidth 16 } := by
  obtain ⟨hregs, hholds⟩ := h.popRegs
  obtain ⟨-, hmem⟩ := StackMachine.popRegs_sp_mem savedRegisters.reverse k.toStackMachine
  have hall : (k.toStackMachine.popRegs savedRegisters.reverse).regs = f := by
    funext r
    have hr : r ∈ savedRegisters.reverse := by cases r <;> decide
    rw [hregs r, if_pos hr]
  rw [run_append, run_pop]
  generalize k.toStackMachine.popRegs savedRegisters.reverse = m at hholds hmem hall ⊢
  obtain ⟨-, -, hrip, hcs, hrflags, hrsp, hss, -⟩ := hholds
  -- The seven words, by their distance from the stack pointer.
  simp only [BitVec.add_assoc, BitVec.reduceAdd, hmem] at hrip hcs hrflags hrsp hss
  simp only [Cpu.run, List.foldl_cons, List.foldl_nil, Cpu.step, BitVec.add_assoc,
    BitVec.reduceAdd, hrip, hcs, hrflags, hrsp, hss, hall, hmem]

/-! ## The way to a stub and back -/

/-- The vectors whose stub expects an error code are those with which there is one. -/
theorem mem_isrErrVectors_iff :
    ∀ v : BitVec 8, v ∈ isrErrVectors ↔ v.toNat ∈ Cpu.errorCodeVectors := by
  decide

/-- What the CPU saves. -/
def Cpu.savedWords (s : Cpu) : List (BitVec 64) :=
  [s.rip, s.cs.setWidth 64, s.rflags, s.sp, s.ss.setWidth 64]

/-- The machine with the stack pointer that the CPU starts at. -/
def Cpu.aligned (s : Cpu) : StackMachine Register :=
  { s.toStackMachine with sp := s.sp &&& ~~~15#64 }

/-- **The way of an interrupt to its stub**, through the tables of the kernel. -/
structure Cpu.Delivered (isrAddress : BitVec 8 → BitVec 64) (v : BitVec 8)
    (errorCode : BitVec 64) (s d : Cpu) : Prop where
  rip : d.rip = isrAddress v
  cs : d.cs = 0x8#16
  rflags : d.rflags = s.rflags &&& ~~~Cpu.clearedFlags
  holds : d.Holds (if v ∈ isrErrVectors then errorCode :: s.savedWords else s.savedWords)
  grown : StackMachine.Grown (if v ∈ isrErrVectors then 48 else 40) s.aligned d.toStackMachine

/-- **Every gate is open**: there is no vector at which the tables stop the CPU. -/
theorem deliver_idtInit (isrAddress : BitVec 8 → BitVec 64) (v : BitVec 8)
    (errorCode : BitVec 64) (s : Cpu) :
    ∃ d, Cpu.deliver gdtInit (idtInit isrAddress) v errorCode s = some d ∧ d.regs = s.regs ∧
      s.Delivered isrAddress v errorCode d := by
  have hgate : Gate.decode (idtInit isrAddress v).word =
      ⟨isrAddress v, 0x8#16, 0#3, 0xe#4, 2#2, 1#1, 0#32⟩ := by
    rw [idtInit, decode_idtCreateEntry, setWidth_idtAttributes]
    rfl
  unfold Cpu.deliver
  rw [hgate]
  dsimp only
  rw [segmentOf_gdtInit]
  dsimp only
  rw [if_pos (by decide)]
  have hiff := mem_isrErrVectors_iff v
  -- The words that are saved in any case.
  have hholds : (((((({ s with sp := s.sp &&& ~~~15#64 } : Cpu).push (s.ss.setWidth 64)).push
      s.sp).push s.rflags).push (s.cs.setWidth 64)).push s.rip).Holds s.savedWords := by
    have hnil : s.aligned.Holds [] := trivial
    exact ((((hnil.push (show 8 * 1 ≤ 2 ^ 64 by decide) _).push (show 8 * 2 ≤ 2 ^ 64 by decide)
      _).push (show 8 * 3 ≤ 2 ^ 64 by decide) _).push (show 8 * 4 ≤ 2 ^ 64 by decide)
        _).push (show 8 * 5 ≤ 2 ^ 64 by decide) _
  have hgrown : StackMachine.Grown 40 s.aligned (((((({ s with sp := s.sp &&& ~~~15#64 } : Cpu).push
      (s.ss.setWidth 64)).push s.sp).push s.rflags).push (s.cs.setWidth 64)).push
        s.rip).toStackMachine :=
    ((((StackMachine.grown_push _ _).trans (StackMachine.grown_push _ _)).trans
      (StackMachine.grown_push _ _)).trans (StackMachine.grown_push _ _)).trans
        (StackMachine.grown_push _ _)
  refine ⟨_, rfl, ?_, rfl, rfl, rfl, ?_, ?_⟩
  · split <;> rfl
  · by_cases hv : v ∈ isrErrVectors
    · simp only [if_pos hv, if_pos (hiff.mp hv)]
      exact hholds.push (show 8 * 6 ≤ 2 ^ 64 by decide) errorCode
    · simp only [if_neg hv, if_neg (mt hiff.mpr hv)]
      exact hholds
  · by_cases hv : v ∈ isrErrVectors
    · simp only [if_pos hv, if_pos (hiff.mp hv)]
      exact hgrown.trans (StackMachine.grown_push _ _)
    · simp only [if_neg hv, if_neg (mt hiff.mpr hv)]
      exact hgrown

/-- How far the stack has grown at the call, which is the same for every vector. -/
theorem grown_delivered_saved {isrAddress : BitVec 8 → BitVec 64} {errorCode : BitVec 64}
    (h : s.Delivered isrAddress v errorCode d) :
    StackMachine.Grown 176 s.aligned (d.saved v).toStackMachine := by
  have hgrown := h.grown.trans (grown_saved v d)
  by_cases hv : v ∈ isrErrVectors
  · rwa [if_pos hv, if_pos hv] at hgrown
  · rwa [if_neg hv, if_neg hv] at hgrown

/-- The stack pointer at the call is a multiple of 16. -/
theorem toNat_aligned_sub (sp : BitVec 64) : ((sp &&& ~~~15#64) - 176#64).toNat % 16 = 0 := by
  have hlow : ((sp &&& ~~~15#64) - 176#64).setWidth 4 = 0#4 := by
    rw [BitVec.sub_eq_add_neg, BitVec.setWidth_add _ _ (by decide), BitVec.setWidth_and]
    show (sp.setWidth 4 &&& 0#4) + 0#4 = 0#4
    rw [BitVec.add_zero, BitVec.and_zero]
  have hmod := congrArg BitVec.toNat hlow
  rwa [BitVec.toNat_setWidth] at hmod

/-- The interrupted stack lies at most 15 bytes behind where the CPU starts. -/
theorem byteAddress_aligned (sp : BitVec 64) (k : ℕ) :
    ∃ j < 16, byteAddress sp k = byteAddress (sp &&& ~~~15#64) (j + k) := by
  have hsplit : (sp &&& ~~~15#64) + (sp &&& 15#64) = sp := by
    have hnone : (~~~15#64 : BitVec 64) &&& 15#64 = 0#64 := by decide
    have hall : (~~~15#64 : BitVec 64) ||| 15#64 = BitVec.allOnes 64 := by decide
    have hdisjoint : (sp &&& ~~~15#64) &&& (sp &&& 15#64) = 0#64 := by
      rw [BitVec.and_comm sp 15#64, BitVec.and_assoc, ← BitVec.and_assoc (~~~15#64), hnone,
        BitVec.zero_and, BitVec.and_zero]
    rw [BitVec.add_eq_or_of_and_eq_zero _ _ hdisjoint, ← BitVec.and_or_distrib_left, hall,
      BitVec.and_allOnes]
  refine ⟨(sp &&& 15#64).toNat, ?_, ?_⟩
  · rw [BitVec.toNat_and]
    exact Nat.and_lt_two_pow _ (show 15 < 2 ^ 4 by decide)
  · rw [← byteAddress_byteAddress]
    refine congrArg (byteAddress · k) ?_
    rw [byteAddress, BitVec.ofNat_toNat, BitVec.setWidth_eq, hsplit]

/-- **What the handler gets, and what it gives back.** -/
structure Cpu.Call (s : Cpu) (v : BitVec 8) (errorCode : BitVec 64) (c : Cpu) : Prop where
  /-- The argument is the frame. -/
  frame : Words c.mem (c.regs .rdi) (s.frame v errorCode).words
  sp : c.sp = c.regs .rdi
  /-- The stack is aligned as the calling convention wants it. -/
  aligned : c.sp.toNat % 16 = 0
  /-- There are no interrupts. -/
  disabled : c.rflags.getLsbD 9 = false
  /-- The stack of the interrupted program is as it was. -/
  mem : ∀ k, k + 192 < 2 ^ 64 → c.mem (byteAddress s.sp k) = s.mem (byteAddress s.sp k)

/-- The words of a frame: what the stub saves, and before it what the CPU does. -/
theorem frame_words (s : Cpu) (v : BitVec 8) (errorCode : BitVec 64) :
    (s.frame v errorCode).words = savedRegisters.reverse.map s.regs ++
      (v.setWidth 64 :: (if v ∈ isrErrVectors then errorCode else v.setWidth 64) ::
        s.savedWords) := rfl

/-- **The call of the handler.** -/
theorem call_called {isrAddress : BitVec 8 → BitVec 64} {errorCode : BitVec 64}
    (hregs : d.regs = s.regs) (h : s.Delivered isrAddress v errorCode d) :
    s.Call v errorCode (d.called v) := by
  have hgrown := grown_delivered_saved h
  have hsp : (d.called v).sp = (s.sp &&& ~~~15#64) - 176#64 := hgrown.sp
  have hrdi : (d.called v).sp = (d.called v).regs .rdi := (Cpu.called_rdi v d).symm
  have hframe : (d.called v).Holds (s.frame v errorCode).words := by
    have hwords := holds_called h.holds (show 5 ≤ 5 from le_rfl)
    rwa [hregs, ← frame_words] at hwords
  have hdisabled : ∀ x : BitVec 64, (x &&& ~~~Cpu.clearedFlags).getLsbD 9 = false := by
    intro x
    rw [BitVec.getLsbD_and, show (~~~Cpu.clearedFlags).getLsbD 9 = false by decide, Bool.and_false]
  refine ⟨?_, hrdi, ?_, ?_, fun k hk => ?_⟩
  · rw [← hrdi]
    exact hframe
  · rw [hsp]
    exact toNat_aligned_sub s.sp
  · have hrflags : (d.called v).rflags = d.rflags := by
      unfold Cpu.called Cpu.saved
      split <;> rfl
    rw [hrflags, h.rflags]
    exact hdisabled s.rflags
  · obtain ⟨j, hj, haddress⟩ := byteAddress_aligned s.sp k
    rw [haddress]
    exact hgrown.mem (j + k) (by omega)

/-- **Interrupts are transparent.** With the tables of the kernel, an interrupt of any
vector gets to the call of the handler, with a frame that has the state of the program
that was interrupted, the vector, and the error code or once more the vector, on an aligned
stack and without further interrupts. If the
handler returns with the stack pointer it was called with and has not changed the frame,
the program goes on in its state, but for what the handler did to the memory. -/
theorem interrupt_transparent (isrAddress : BitVec 8 → BitVec 64)
    (code : BitVec 64 → List IsrInstruction) (hcode : ∀ v, code (isrAddress v) = isr v)
    (v : BitVec 8) (errorCode : BitVec 64) (s : Cpu) :
    ∃ d c, Cpu.deliver gdtInit (idtInit isrAddress) v errorCode s = some d ∧
      s.Call v errorCode c ∧
      ∀ handler : Cpu → Cpu, (handler c).sp = c.sp →
        (∀ k < 176, (handler c).mem (byteAddress c.sp k) = c.mem (byteAddress c.sp k)) →
        d.run handler (code d.rip) = { s with mem := (handler c).mem } := by
  obtain ⟨d, hdeliver, hregs, hd⟩ := deliver_idtInit isrAddress v errorCode s
  have hcall := call_called hregs hd
  refine ⟨d, d.called v, hdeliver, hcall, fun handler hsp hmem => ?_⟩
  rw [hd.rip, hcode, run_isr]
  have hframe : (handler (d.called v)).Holds (s.frame v errorCode).words := by
    have hwords := hcall.frame
    rw [← hcall.sp] at hwords
    rw [StackMachine.Holds, hsp]
    exact hwords.congr hmem
  rw [frame_words] at hframe
  rw [run_restore hframe, BitVec.setWidth_setWidth_of_le _ (by decide), BitVec.setWidth_eq,
    BitVec.setWidth_setWidth_of_le _ (by decide), BitVec.setWidth_eq]

/-- A CPU that does nothing, with interrupts. -/
def idleCpu : Cpu where
  regs _ := 0#64
  sp := 0xffffffff80008008#64
  mem _ := 0#8
  rip := 0xffffffff80001000#64
  rflags := 0x202#64
  cs := 0x8#16
  ss := 0x10#16

/-- A handler that does nothing. -/
theorem interrupt_transparent_timer :
    ∃ d mem, Cpu.deliver gdtInit (idtInit fun v => v.setWidth 64) 0x20#8 0#64 idleCpu = some d ∧
      d.run id (isr (d.rip.setWidth 8)) = { idleCpu with mem := mem } := by
  have hcode : ∀ v : BitVec 8, isr ((v.setWidth 64).setWidth 8) = isr v := by
    intro v
    rw [BitVec.setWidth_setWidth_of_le _ (by decide), BitVec.setWidth_eq]
  obtain ⟨d, c, hdeliver, -, hrun⟩ := interrupt_transparent (fun v => v.setWidth 64)
    (fun a => isr (a.setWidth 8)) hcode 0x20#8 0#64 idleCpu
  exact ⟨d, c.mem, hdeliver, hrun id rfl fun _ _ => rfl⟩

end Stub
