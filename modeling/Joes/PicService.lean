import Joes.KeyboardPipeline
import Joes.Pic

/-!
# Interrupts in service

A chip that has passed an interrupt to the processor keeps it in service until it is
told its end, and holds back what is not more urgent for so long. `pic_send_eoi` tells
it, to both chips where the second one was involved. Here the chips have the
registers for that, of the lines that request an interrupt and of those in service,
and `Delivers` says what they may pass to the processor: a line that requests it, or
nothing at all where the request was withdrawn in time, which the chips report on
their last lines.

The handler acknowledges every interrupt that it returns from, by its number. So
between two interrupts nothing is in service, and a line that is not masked asks for the
processor if it requests an interrupt (`serviceRun_idle`). The lines of the second chip
ask through line 2 of the first one, so they are held back as long as that is masked,
which it is after `pic_init`, whatever their own masks are (`Wants`).
-/

/-! ## The chips -/

/-- **A chip with its requests**: which lines request an interrupt, and which are in
service. -/
structure PicUnit where
  chip : PicChip
  irr : BitVec 8
  isr : BitVec 8
  deriving DecidableEq, Repr

/-- The two chips. -/
structure PicUnits where
  pic1 : PicUnit
  pic2 : PicUnit
  deriving DecidableEq, Repr

namespace PicUnit

/-- The most urgent line in service is that of the lowest bit. -/
def endService (isr : BitVec 8) : BitVec 8 := isr &&& (isr - 1#8)

/-- A write to the command port. The initialisation clears the two registers, and an
end of interrupt the most urgent line in service. -/
def writeCommand (v : BitVec 8) (u : PicUnit) : PicUnit :=
  if v &&& picIcw1Init ≠ 0#8 ∧ v &&& picIcw1Icw4Needed ≠ 0#8 then
    ⟨u.chip.writeCommand v, 0#8, 0#8⟩
  else if v = picEoi then { u with isr := endService u.isr }
  else u

/-- A write to the data port. -/
def writeData (v : BitVec 8) (u : PicUnit) : PicUnit := { u with chip := u.chip.writeData v }

/-- A line requests an interrupt and is not masked. -/
def Requests (u : PicUnit) (i : ℕ) : Prop := u.irr.getLsbD i = true ∧ u.chip.mask.getLsbD i = false

/-- No line that is as urgent is in service. -/
def Free (u : PicUnit) (i : ℕ) : Prop := ∀ j ≤ i, u.isr.getLsbD j = false

/-- A line goes from its request into service. -/
def serve (u : PicUnit) (i : ℕ) : PicUnit :=
  { u with irr := u.irr &&& ~~~(1#8 <<< i), isr := u.isr ||| 1#8 <<< i }

end PicUnit

namespace PicUnits

/-- **The chips behind their ports.** -/
def device : PortDevice PicUnits where
  read port d :=
    if port = pic1Data then (d.pic1.chip.mask, d)
    else if port = pic2Data then (d.pic2.chip.mask, d)
    else (0#8, d)
  write port v d :=
    if port = pic1Command then { d with pic1 := d.pic1.writeCommand v }
    else if port = pic1Data then { d with pic1 := d.pic1.writeData v }
    else if port = pic2Command then { d with pic2 := d.pic2.writeCommand v }
    else if port = pic2Data then { d with pic2 := d.pic2.writeData v }
    else d

/-- The chips without their requests. -/
def chips (d : PicUnits) : PicPair := ⟨d.pic1.chip, d.pic2.chip⟩

/-- **A line asks for the processor**: it requests an interrupt, is not masked, and
nothing as urgent is in service. The lines of the second chip ask through one of the
first. -/
def Asks (d : PicUnits) (irq : ℕ) : Prop :=
  if irq < 8 then irq ≠ picCascadeIrq ∧ d.pic1.Requests irq ∧ d.pic1.Free irq
  else
    d.pic2.Requests (irq - 8) ∧ d.pic2.Free (irq - 8) ∧
      d.pic1.chip.mask.getLsbD picCascadeIrq = false ∧ d.pic1.Free picCascadeIrq

/-- How urgent a line is. Those of the second chip come between two of the first. -/
def priority (irq : ℕ) : ℕ := if irq < 2 then irq else if irq < 8 then irq + 8 else irq - 6

/-- The chips after a line was passed to the processor. -/
def serve (d : PicUnits) (irq : ℕ) : PicUnits :=
  if irq < 8 then { d with pic1 := d.pic1.serve irq }
  else
    { d with
      pic1 := { d.pic1 with isr := d.pic1.isr ||| 1#8 <<< picCascadeIrq }
      pic2 := d.pic2.serve (irq - 8) }

/-- **What the chips may pass to the processor**, and what becomes of them. -/
inductive Delivers (d : PicUnits) : ℕ → PicUnits → Prop where
  /-- The most urgent of the lines that ask. -/
  | line {irq : ℕ} : irq < 16 → d.Asks irq →
      (∀ irq' < 16, d.Asks irq' → priority irq ≤ priority irq') → Delivers d irq (d.serve irq)
  /-- A request of the first chip that was withdrawn. -/
  | spurious1 : Delivers d 7 d
  /-- A request of the second chip that was withdrawn. The first one has its line in
  service all the same. -/
  | spurious2 :
      Delivers d 15 { d with pic1 := { d.pic1 with isr := d.pic1.isr ||| 1#8 <<< picCascadeIrq } }

/-- The vector that a chip gives to a line: the upper bits of its offset, with the
number of the line. -/
def vector (d : PicUnits) (irq : ℕ) : BitVec 8 :=
  if irq < 8 then d.pic1.chip.icw2 &&& 0xf8#8 ||| BitVec.ofNat 8 irq
  else d.pic2.chip.icw2 &&& 0xf8#8 ||| BitVec.ofNat 8 (irq - 8)

/-- Nothing is in service. -/
def Idle (d : PicUnits) : Prop := d.pic1.isr = 0#8 ∧ d.pic2.isr = 0#8

/-- Only requests are made or withdrawn. -/
def SameService (d d' : PicUnits) : Prop :=
  d'.chips = d.chips ∧ d'.pic1.isr = d.pic1.isr ∧ d'.pic2.isr = d.pic2.isr

end PicUnits

/-! ## The driver on the chips -/

section Chips

variable {d d' : PicUnits} {irq : ℕ}

/-- After `pic_init` nothing is requested or in service, whatever was before. -/
theorem picInit_picUnits (offsetPic1 offsetPic2 : BitVec 32) (d : PicUnits) :
    picInit PicUnits.device offsetPic1 offsetPic2 d =
      ⟨⟨⟨.mask, offsetPic1.setWidth 8, 4#8, 1#8, 255#8⟩, 0#8, 0#8⟩,
        ⟨⟨.mask, offsetPic2.setWidth 8, 2#8, 255#8, 0#8⟩, 0#8, 0#8⟩⟩ := by
  rfl

/-- **`pic_send_eoi`** ends the service of one line of the first chip, and of one of the
second for its lines. -/
theorem picSendEoi_picUnits (hirq : irq < 16) (d : PicUnits) :
    picSendEoi PicUnits.device (BitVec.ofNat 8 irq) d =
      { pic1 := { d.pic1 with isr := PicUnit.endService d.pic1.isr }
        pic2 := if irq < 8 then d.pic2
          else { d.pic2 with isr := PicUnit.endService d.pic2.isr } } := by
  have hchip : ∀ i < 16, (7#8 < BitVec.ofNat 8 i ↔ ¬ i < 8) := by decide
  unfold picSendEoi
  by_cases hlt : irq < 8
  · rw [if_neg fun h => (hchip irq hirq).mp h hlt, if_pos hlt]
    rfl
  · rw [if_pos ((hchip irq hirq).mpr hlt), if_neg hlt]
    rfl

/-- A call that changes the mask, on any device. -/
def PicCall.onDevice {δ : Type} (dev : PortDevice δ) (d : δ) : PicCall → δ
  | enable irq => picEnableIrq dev (BitVec.ofNat 8 irq) d
  | disable irq => picDisableIrq dev (BitVec.ofNat 8 irq) d

/-- Such a call only concerns the chips, and neither requests nor services. -/
theorem PicCall.onDevice_picUnits (c : PicCall) (d : PicUnits) :
    (c.onDevice PicUnits.device d).chips = c.run d.chips ∧
      (c.onDevice PicUnits.device d).pic1.isr = d.pic1.isr ∧
      (c.onDevice PicUnits.device d).pic2.isr = d.pic2.isr ∧
      (c.onDevice PicUnits.device d).pic1.irr = d.pic1.irr ∧
      (c.onDevice PicUnits.device d).pic2.irr = d.pic2.irr := by
  have hline : ∀ i : Fin 16, (picLine (BitVec.ofNat 8 i)).1 = pic1Data ∨
      (picLine (BitVec.ofNat 8 i)).1 = pic2Data := by decide
  cases c with
  | enable i =>
    simp only [onDevice, run, picEnableIrq]
    rcases hline i with h | h <;> rw [h] <;> exact ⟨rfl, rfl, rfl, rfl, rfl⟩
  | disable i =>
    simp only [onDevice, run, picDisableIrq]
    rcases hline i with h | h <;> rw [h] <;> exact ⟨rfl, rfl, rfl, rfl, rfl⟩

/-- **The chips between two interrupts**: initialised, with the offsets of the kernel,
and with nothing in service. -/
structure PicUnits.Serving (d : PicUnits) : Prop where
  initialized : d.chips.Initialized
  icw2Pic1 : d.pic1.chip.icw2 = 0x20#8
  icw2Pic2 : d.pic2.chip.icw2 = 0x28#8
  idle : d.Idle

namespace PicUnits

theorem serving_picInit (d : PicUnits) : (picInit device 0x20#32 0x28#32 d).Serving := by
  have hchips : (picInit device 0x20#32 0x28#32 d).chips
      = picInit picPair 0x20#32 0x28#32 d.chips := rfl
  exact ⟨hchips ▸ initialized_picInit _ _ _, rfl, rfl, rfl, rfl⟩

/-- Only the chips and what is in service matter for this. -/
theorem Serving.of_sameService (h : d.Serving) (hsame : d.SameService d') : d'.Serving := by
  obtain ⟨hchips, hisr₁, hisr₂⟩ := hsame
  have hchip₁ : d'.pic1.chip = d.pic1.chip := congrArg PicPair.pic1 hchips
  have hchip₂ : d'.pic2.chip = d.pic2.chip := congrArg PicPair.pic2 hchips
  exact ⟨hchips ▸ h.initialized, hchip₁ ▸ h.icw2Pic1, hchip₂ ▸ h.icw2Pic2,
    hisr₁.trans h.idle.1, hisr₂.trans h.idle.2⟩

theorem Serving.onDevice (h : d.Serving) (c : PicCall) : (c.onDevice device d).Serving := by
  obtain ⟨hchips, hisr₁, hisr₂, -, -⟩ := c.onDevice_picUnits d
  have hicw : (c.run d.chips).pic1.icw2 = d.pic1.chip.icw2 ∧
      (c.run d.chips).pic2.icw2 = d.pic2.chip.icw2 := by
    rw [c.run_eq h.initialized]
    split <;> exact ⟨rfl, rfl⟩
  refine ⟨hchips ▸ c.initialized_run h.initialized, ?_, ?_, hisr₁.trans h.idle.1,
    hisr₂.trans h.idle.2⟩
  · exact (congrArg (fun p => p.pic1.icw2) hchips).trans (hicw.1.trans h.icw2Pic1)
  · exact (congrArg (fun p => p.pic2.icw2) hchips).trans (hicw.2.trans h.icw2Pic2)

/-- The vector of a line is one of the handler's. -/
theorem Serving.vector_eq (h : d.Serving) (hirq : irq < 16) :
    (d.vector irq).setWidth 64 = BitVec.ofNat 64 (32 + irq) := by
  have hall : ∀ i < 16, ((if i < 8 then 0x20#8 &&& 0xf8#8 ||| BitVec.ofNat 8 i
      else 0x28#8 &&& 0xf8#8 ||| BitVec.ofNat 8 (i - 8)).setWidth 64 : BitVec 64)
        = BitVec.ofNat 64 (32 + i) := by decide
  rw [vector, h.icw2Pic1, h.icw2Pic2]
  exact hall irq hirq

/-- The end of the service of the only line in service. -/
theorem endService_single : ∀ i < 8, PicUnit.endService (0#8 ||| 1#8 <<< i) = 0#8 := by decide

theorem Delivers.lt (h : d.Delivers irq d') : irq < 16 := by
  cases h with
  | line hirq => exact hirq
  | spurious1 | spurious2 => decide

/-- The chips are those from before. -/
theorem Delivers.chips_eq (h : d.Delivers irq d') : d'.chips = d.chips := by
  cases h with
  | line =>
    unfold serve
    split <;> rfl
  | spurious1 | spurious2 => rfl

/-- **A delivery and its acknowledgement** leave nothing in service. -/
theorem Delivers.idle (h : d.Delivers irq d') (hidle : d.Idle) :
    (picSendEoi device (BitVec.ofNat 8 irq) d').Idle := by
  rw [picSendEoi_picUnits h.lt]
  obtain ⟨hisr₁, hisr₂⟩ := hidle
  cases h with
  | line hirq hasks =>
    unfold serve
    by_cases hlt : irq < 8
    · simp only [if_pos hlt]
      refine ⟨?_, hisr₂⟩
      show PicUnit.endService (d.pic1.isr ||| 1#8 <<< irq) = 0#8
      rw [hisr₁]
      exact endService_single irq hlt
    · simp only [if_neg hlt]
      constructor
      · show PicUnit.endService (d.pic1.isr ||| 1#8 <<< picCascadeIrq) = 0#8
        rw [hisr₁]
        exact endService_single 2 (by decide)
      · show PicUnit.endService (d.pic2.isr ||| 1#8 <<< (irq - 8)) = 0#8
        rw [hisr₂]
        exact endService_single (irq - 8) (by omega)
  | spurious1 =>
    refine ⟨?_, hisr₂⟩
    show PicUnit.endService d.pic1.isr = 0#8
    rw [hisr₁]
    rfl
  | spurious2 =>
    constructor
    · show PicUnit.endService (d.pic1.isr ||| 1#8 <<< picCascadeIrq) = 0#8
      rw [hisr₁]
      exact endService_single 2 (by decide)
    · show PicUnit.endService d.pic2.isr = 0#8
      rw [hisr₂]
      rfl

/-- An acknowledgement leaves the chips and the requests. -/
theorem picSendEoi_same (hirq : irq < 16) (d : PicUnits) :
    (picSendEoi device (BitVec.ofNat 8 irq) d).chips = d.chips ∧
      (picSendEoi device (BitVec.ofNat 8 irq) d).pic1.irr = d.pic1.irr ∧
      (picSendEoi device (BitVec.ofNat 8 irq) d).pic2.irr = d.pic2.irr := by
  rw [picSendEoi_picUnits hirq]
  split <;> exact ⟨rfl, rfl, rfl⟩

theorem Serving.acknowledged (h : d.Serving) (hdelivers : d.Delivers irq d') :
    (picSendEoi device (BitVec.ofNat 8 irq) d').Serving := by
  obtain ⟨hchips, -, -⟩ := picSendEoi_same hdelivers.lt d'
  have hall := hchips.trans hdelivers.chips_eq
  exact ⟨hall ▸ h.initialized, (congrArg (fun p => p.pic1.icw2) hall).trans h.icw2Pic1,
    (congrArg (fun p => p.pic2.icw2) hall).trans h.icw2Pic2, hdelivers.idle h.idle⟩

/-- A line that requests an interrupt, is not masked and does not ask through a masked
one. -/
def Wants (d : PicUnits) (irq : ℕ) : Prop :=
  if irq < 8 then irq ≠ picCascadeIrq ∧ d.pic1.Requests irq
  else d.pic2.Requests (irq - 8) ∧ d.pic1.chip.mask.getLsbD picCascadeIrq = false

/-- **Where nothing is in service**, every line that wants to ask does. -/
theorem Idle.asks_iff (h : d.Idle) (irq : ℕ) : d.Asks irq ↔ d.Wants irq := by
  have hfree : ∀ {u : PicUnit}, u.isr = 0#8 → ∀ i, u.Free i := fun hisr i j _ => by
    rw [hisr]
    exact BitVec.getLsbD_zero
  unfold Asks Wants
  split
  · simp only [hfree h.1, and_true]
  · simp only [hfree h.1, hfree h.2, true_and, and_true]

end PicUnits

end Chips

/-! ## The chips among the devices -/

section Service

variable {δ : Type} {env : HandlerEnv} {dev : PortDevice δ} {pics : δ → PicUnits} {fuel : ℕ}
  {stack : InterruptStackFrame} {s s' : KernelState δ} {t : List HandlerEvent}
  {q : List KeyEvent} {irq : ℕ}

/-- **The chips are among the devices**: what is done at their ports is done to them, and
to read a port does nothing to them. -/
structure HasPics (dev : PortDevice δ) (pics : δ → PicUnits) : Prop where
  write : ∀ port, port ∈ [pic1Command, pic1Data, pic2Command, pic2Data] → ∀ v d,
    pics (dev.write port v d) = PicUnits.device.write port v (pics d)
  read : ∀ port d, pics (dev.read port d).2 = pics d
  mask : ∀ port, port ∈ [pic1Data, pic2Data] → ∀ d,
    (dev.read port d).1 = (PicUnits.device.read port (pics d)).1

theorem HasPics.pics_picSendEoi (h : HasPics dev pics) (irq : BitVec 8) (d : δ) :
    pics (picSendEoi dev irq d) = picSendEoi PicUnits.device irq (pics d) := by
  unfold picSendEoi
  dsimp only
  rw [h.write _ (by decide)]
  split
  · rw [h.write _ (by decide)]
  · rfl

theorem HasPics.pics_onDevice (h : HasPics dev pics) (c : PicCall) (d : δ) :
    pics (c.onDevice dev d) = c.onDevice PicUnits.device (pics d) := by
  have hline : ∀ i : Fin 16, (picLine (BitVec.ofNat 8 i)).1 ∈ [pic1Data, pic2Data] := by decide
  have hports : ∀ port, port ∈ [pic1Data, pic2Data] →
      port ∈ [pic1Command, pic1Data, pic2Command, pic2Data] := by
    intro port hport
    rcases List.mem_pair.mp hport with rfl | rfl <;> simp
  have hread : ∀ port d, (PicUnits.device.read port d).2 = d := by
    intro port d
    unfold PicUnits.device
    dsimp only
    split
    · rfl
    · split <;> rfl
  cases c with
  | enable i =>
    simp only [PicCall.onDevice, picEnableIrq]
    rw [h.write _ (hports _ (hline i)), h.read, h.mask _ (hline i), hread]
  | disable i =>
    simp only [PicCall.onDevice, picDisableIrq]
    rw [h.write _ (hports _ (hline i)), h.read, h.mask _ (hline i), hread]

/-- The keyboard's interrupt leaves the chips alone. -/
theorem HasPics.ps2KbdIrqCallback_confined (h : HasPics dev pics) :
    (ps2KbdIrqCallback dev).Confined (fun s => pics s.device) fun _ => True := by
  have hread : ∀ port, (portReadByte dev port).Confined (fun s => pics s.device) fun _ => True :=
    fun port => Traced.Confined.modifyGet fun s => h.read port s.device
  have hwait : ∀ n, (ps2WaitToReceive dev n).Confined (fun s => pics s.device)
      fun _ => True := by
    intro n
    induction n with
    | zero => exact .pure
    | succ n ih => exact .bind (.bind (hread _) fun _ => .pure) fun _ => .ite .pure ih
  refine .bind (.bind (hwait _) fun _ => .ite ?_ ?_) fun _ => .bind ?_ fun keyEvent => ?_
  · exact .bind (hread _) fun _ => .bind (.emit trivial) fun _ => .pure
  · exact .bind (.emit trivial) fun _ => .pure
  · exact .modifyGet fun _ => rfl
  · cases keyEvent with
    | none => exact .pure
    | some keyEvent => exact .emit trivial

/-- **The handler acknowledges** every interrupt it returns from, by its number, and does
nothing else to the chips. -/
theorem interruptHandler_pics (hdev : HasPics dev pics) (hfuel : kbdKeyEventBufferSize < fuel)
    (hq : s.ps2.kbd.keyEvents.Holds q) (hirq : IsIrq stack irq)
    (hrun : (interruptHandler env dev fuel stack).Runs s t .returned s') :
    pics s'.ps2.device =
      picSendEoi PicUnits.device (BitVec.ofNat 8 irq) (pics s.ps2.device) := by
  rw [interruptHandler_of_isIrq hirq] at hrun
  split at hrun
  · next hzero =>
    have hlen : q.length ≤ kbdKeyEventBufferSize := by
      rw [← hq.contents, length_ringContents]
      exact hq.size
    obtain ⟨b, htimer, -⟩ := timerInterrupt_runs hq (hlen.trans_lt hfuel)
    obtain ⟨-, rfl⟩ := hrun.unique_result htimer
    rw [hzero]
    exact hdev.pics_picSendEoi 0#8 s.ps2.device
  · split at hrun
    · next hone =>
      obtain ⟨u, _, p, hcallback⟩ :=
        (ps2KbdIrqCallback_total : (ps2KbdIrqCallback dev).Total) s.ps2
      obtain ⟨-, rfl⟩ := hrun.unique_result (keyboardInterrupt_runs hcallback)
      have hsame : pics p.device = pics s.ps2.device :=
        (hdev.ps2KbdIrqCallback_confined hcallback).1
      rw [hone, ← hsame]
      exact hdev.pics_picSendEoi 1#8 p.device
    · obtain ⟨-, rfl⟩ := hrun.unique_result (otherInterrupt_runs hirq.1)
      exact hdev.pics_picSendEoi _ s.ps2.device

/-! ## Runs -/

/-- **A run of the kernel** after it has set up the chips. Lines request interrupts and
withdraw them, the kernel masks and unmasks lines, and the chips deliver interrupts,
each with its vector, which the handler returns from. -/
inductive ServiceRun (env : HandlerEnv) (dev : PortDevice δ) (pics : δ → PicUnits) (fuel : ℕ)
    (s₀ : KernelState δ) : KernelState δ → Prop where
  | start : ServiceRun env dev pics fuel s₀ s₀
  | requests {s : KernelState δ} {d : δ} : ServiceRun env dev pics fuel s₀ s →
      (pics s.ps2.device).SameService (pics d) → ServiceRun env dev pics fuel s₀ (s.withDevice d)
  | mask {s : KernelState δ} (c : PicCall) : ServiceRun env dev pics fuel s₀ s →
      ServiceRun env dev pics fuel s₀ (s.withDevice (c.onDevice dev s.ps2.device))
  | interrupt {s s' : KernelState δ} {d : δ} {irq : ℕ} {stack : InterruptStackFrame}
      {t : List HandlerEvent} : ServiceRun env dev pics fuel s₀ s →
      (pics s.ps2.device).Delivers irq (pics d) →
      stack.interruptVector = ((pics s.ps2.device).vector irq).setWidth 64 →
      (interruptHandler env dev fuel stack).Runs (s.withDevice d) t .returned s' →
      ServiceRun env dev pics fuel s₀ s'

/-- **The invariant**: the chips are ready for the next interrupt, and so is the buffer of
key events. -/
def Serviced (pics : δ → PicUnits) (s : KernelState δ) : Prop :=
  (pics s.ps2.device).Serving ∧ ∃ q, s.ps2.kbd.keyEvents.Holds q

/-- **The step**: a delivery, and what the handler makes of it. -/
theorem Serviced.interrupt (hdev : HasPics dev pics) (hfuel : kbdKeyEventBufferSize < fuel)
    (h : Serviced pics s) {d : δ} (hdelivers : (pics s.ps2.device).Delivers irq (pics d))
    (hvector : stack.interruptVector = ((pics s.ps2.device).vector irq).setWidth 64)
    (hrun : (interruptHandler env dev fuel stack).Runs (s.withDevice d) t .returned s') :
    Serviced pics s' ∧
      pics s'.ps2.device = picSendEoi PicUnits.device (BitVec.ofNat 8 irq) (pics d) := by
  obtain ⟨hserving, q, hq⟩ := h
  have hirq : IsIrq stack irq := ⟨hdelivers.lt, hvector.trans (hserving.vector_eq hdelivers.lt)⟩
  have hpics := interruptHandler_pics hdev hfuel (s := s.withDevice d) hq hirq hrun
  have heffect := interruptHandler_effect hfuel (s := s.withDevice d) hq hrun
  refine ⟨⟨?_, _, heffect.holds⟩, hpics⟩
  rw [hpics]
  exact hserving.acknowledged hdelivers

/-- **The run** keeps the invariant. -/
theorem ServiceRun.serviced (hdev : HasPics dev pics) (hfuel : kbdKeyEventBufferSize < fuel)
    (hs : Serviced pics s) (h : ServiceRun env dev pics fuel s s') : Serviced pics s' := by
  induction h with
  | start => exact hs
  | requests _ hsame ih => exact ⟨ih.1.of_sameService hsame, ih.2⟩
  | @mask s c _ ih =>
    refine ⟨?_, ih.2⟩
    show (pics (c.onDevice dev s.ps2.device)).Serving
    rw [hdev.pics_onDevice]
    exact ih.1.onDevice c
  | interrupt _ hdelivers hvector hrun ih =>
    exact (ih.interrupt hdev hfuel hdelivers hvector hrun).1

/-- **No interrupt is held back.** The kernel has set up the chips, and after that lines
request interrupts and withdraw them, are masked and unmasked, and are served, in any
order. In every state between two interrupts nothing is in service, so that a line asks for
the processor if it requests an interrupt and is not masked, and line 2 of the first chip is
not masked either if it is one of the second chip. And whatever the chips deliver next, a
withdrawn request or not, the handler returns from it, with the chips and the other requests
as they were and nothing in service. -/
theorem serviceRun_idle (hdev : HasPics dev pics) (hfuel : kbdKeyEventBufferSize < fuel)
    (d₀ : PicUnits) (hinit : pics s.ps2.device = picInit PicUnits.device 0x20#32 0x28#32 d₀)
    (hq : s.ps2.kbd.keyEvents.Holds q) (h : ServiceRun env dev pics fuel s s') :
    (pics s'.ps2.device).Idle ∧
      (∀ irq, (pics s'.ps2.device).Asks irq ↔ (pics s'.ps2.device).Wants irq) ∧
      ∀ irq d stack, (pics s'.ps2.device).Delivers irq (pics d) →
        stack.interruptVector = ((pics s'.ps2.device).vector irq).setWidth 64 →
          ∃ t s'', (interruptHandler env dev fuel stack).Runs (s'.withDevice d) t .returned s'' ∧
            (pics s''.ps2.device).Idle ∧
            (pics s''.ps2.device).chips = (pics s'.ps2.device).chips ∧
            (pics s''.ps2.device).pic1.irr = (pics d).pic1.irr ∧
            (pics s''.ps2.device).pic2.irr = (pics d).pic2.irr := by
  have hs : Serviced pics s := ⟨hinit ▸ PicUnits.serving_picInit d₀, q, hq⟩
  have hs' := h.serviced hdev hfuel hs
  refine ⟨hs'.1.idle, hs'.1.idle.asks_iff, fun irq d stack hdelivers hvector => ?_⟩
  obtain ⟨q', hq'⟩ := hs'.2
  have hirq : IsIrq stack irq := ⟨hdelivers.lt, hvector.trans (hs'.1.vector_eq hdelivers.lt)⟩
  obtain ⟨t, s'', hrun⟩ : ∃ t s'',
      (interruptHandler env dev fuel stack).Runs (s'.withDevice d) t .returned s'' :=
    interruptHandler_returns hfuel hq' hirq
  obtain ⟨hserviced, hpics⟩ := hs'.interrupt hdev hfuel hdelivers hvector hrun
  obtain ⟨hchips, hirr₁, hirr₂⟩ := PicUnits.picSendEoi_same hdelivers.lt (pics d)
  refine ⟨t, s'', hrun, hserviced.1.idle, ?_, ?_, ?_⟩
  · rw [hpics, hchips, hdelivers.chips_eq]
  · rw [hpics, hirr₁]
  · rw [hpics, hirr₂]

end Service

/-- The chips alone are such a device. -/
theorem hasPics_device : HasPics PicUnits.device id where
  write _ _ _ _ := rfl
  read port d := by
    unfold PicUnits.device
    dsimp only
    split
    · rfl
    · split <;> rfl
  mask _ _ _ := rfl

/-- The kernel with the chips set up and nothing else. -/
def picKernel : KernelState PicUnits :=
  ⟨Ps2State.initial (picInit PicUnits.device 0x20#32 0x28#32
    ⟨⟨⟨.mask, 0#8, 0#8, 0#8, 0#8⟩, 1#8, 3#8⟩, ⟨⟨.mask, 0#8, 0#8, 0#8, 0#8⟩, 0#8, 0#8⟩⟩),
      ⟨.debug⟩, 0#64⟩

/-- The chips with the line of the timer unmasked. -/
def timerUnmasked : PicUnits :=
  PicCall.onDevice PicUnits.device picKernel.ps2.device (.enable 0)

/-- And with its request. -/
def timerRequested : PicUnits :=
  { timerUnmasked with pic1 := { timerUnmasked.pic1 with irr := 1#8 } }

/-- A line that is unmasked and requests an interrupt asks for one, and is served. -/
theorem serviceRun_idle_timer :
    ∃ s' d t s'', ServiceRun quietEnv PicUnits.device id 33 picKernel s' ∧
      s'.ps2.device.Asks 0 ∧ s'.ps2.device.Delivers 0 d ∧
      (interruptHandler quietEnv PicUnits.device 33 (irqFrame 0)).Runs (s'.withDevice d) t
        .returned s'' ∧ ServiceRun quietEnv PicUnits.device id 33 picKernel s'' ∧
      s''.ps2.device.Idle ∧ ¬ d.Idle := by
  have hrun : ServiceRun quietEnv PicUnits.device id 33 picKernel
      ((picKernel.withDevice timerUnmasked).withDevice timerRequested) :=
    .requests (.mask (.enable 0) .start) ⟨rfl, rfl, rfl⟩
  obtain ⟨-, hasks, hserved⟩ := serviceRun_idle hasPics_device (show 32 < 33 by decide) _ rfl
    KeyEventBuffer.holds_initial hrun
  have hmask : timerRequested.pic1.chip.mask.getLsbD 0 = false := by decide
  have hask : timerRequested.Asks 0 := (hasks 0).mpr ⟨by decide, rfl, hmask⟩
  have hdelivers : timerRequested.Delivers 0 (timerRequested.serve 0) :=
    .line (by decide) hask fun _ _ _ => Nat.zero_le _
  have hvector : (irqFrame 0).interruptVector = (timerRequested.vector 0).setWidth 64 := by decide
  obtain ⟨t, s'', hhandler, hidle, -⟩ := hserved 0 _ (irqFrame 0) hdelivers hvector
  exact ⟨_, _, t, s'', hrun, hask, hdelivers, hhandler, .interrupt hrun hdelivers hvector hhandler,
    hidle, fun h => absurd h.1 (by decide)⟩
