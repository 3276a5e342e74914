import Mathlib.Data.BitVec

/-!
# The interrupt controllers

`pic.c` sets up the two 8259 chips of a PC and masks their lines. It reads and
writes ports, and what is behind them is a `PortDevice`: the functions of the
driver act on any such device. `picPair` is the one they are for, two chips
that take their initialisation words one by one from the data port.

`pic_init` writes the last word of the second chip to the first one. So the
second chip takes the mask that follows for it, and its lines are left unmasked
(`picRun_masks_iff`).

Once a chip has its initialisation words it takes every byte on its data port for its mask
(`PicChip.writeData_of_mask`). So on initialised chips a call reads the mask of one chip,
sets or clears one bit of it, and writes it back, and the other chip is not touched
(`PicCall.run_eq`). Of the sixteen lines it changes its own (`PicCall.masked_run`), and a
line is masked as the last call about it says, or as it was before all of them
(`masked_picRun`). That is how the driver is meant to work, and it depends on how the lines
were before. After `pic_init` those of the first chip are masked and those of the second
are not (`masked_picInit`), so what is wrong then are the lines of the second chip that no call
was about.
-/

/-- **A device behind the I/O ports**: what a byte read from a port is, and what
reading and writing do to the device. -/
structure PortDevice (δ : Type) where
  read : BitVec 16 → δ → BitVec 8 × δ
  write : BitVec 16 → BitVec 8 → δ → δ

/-- `PIC1_COMMAND`. -/
def pic1Command : BitVec 16 := 0x20#16

/-- `PIC1_DATA`. -/
def pic1Data : BitVec 16 := 0x21#16

/-- `PIC2_COMMAND`. -/
def pic2Command : BitVec 16 := 0xa0#16

/-- `PIC2_DATA`. -/
def pic2Data : BitVec 16 := 0xa1#16

/-- `PIC_ICW1_INIT`. -/
def picIcw1Init : BitVec 8 := 1#8 <<< 4

/-- `PIC_ICW1_ICW4_NEEDED`. -/
def picIcw1Icw4Needed : BitVec 8 := 1#8

/-- `PIC_ICW1_CASCADE_MODE`. -/
def picIcw1CascadeMode : BitVec 8 := 0#8 <<< 1

/-- `PIC_ICW4_MODE_8086`. -/
def picIcw4Mode8086 : BitVec 8 := 1#8

/-- `PIC_CASCADE_IRQ`. -/
def picCascadeIrq : ℕ := 2

/-- `PIC_EOI`. -/
def picEoi : BitVec 8 := 1#8 <<< 5

section Driver

variable {δ : Type} (dev : PortDevice δ)

/-- The data port of an IRQ's chip, and the IRQ's bit in the mask register. -/
def picLine (irq : BitVec 8) : BitVec 16 × BitVec 8 :=
  if 7#8 < irq then (pic2Data, irq - 8#8) else (pic1Data, irq)

/-- `pic_enable_irq`. -/
def picEnableIrq (irq : BitVec 8) (d : δ) : δ :=
  let line := picLine irq
  let r := dev.read line.1 d
  dev.write line.1 (r.1 &&& ~~~(1#8 <<< line.2.toNat)) r.2

/-- `pic_disable_irq`. -/
def picDisableIrq (irq : BitVec 8) (d : δ) : δ :=
  let line := picLine irq
  let r := dev.read line.1 d
  dev.write line.1 (r.1 ||| 1#8 <<< line.2.toNat) r.2

/-- `pic_send_eoi`. -/
def picSendEoi (irq : BitVec 8) (d : δ) : δ :=
  let d := if 7#8 < irq then dev.write pic2Command picEoi d else d
  dev.write pic1Command picEoi d

/-- `pic_init`. -/
def picInit (offsetPic1 offsetPic2 : BitVec 32) (d : δ) : δ :=
  let icw1 := picIcw1Init ||| picIcw1CascadeMode ||| picIcw1Icw4Needed
  let d := dev.write pic1Command icw1 d
  let d := dev.write pic2Command icw1 d
  let d := dev.write pic1Data (offsetPic1.setWidth 8) d
  let d := dev.write pic2Data (offsetPic2.setWidth 8) d
  let d := dev.write pic1Data (1#8 <<< picCascadeIrq) d
  let d := dev.write pic2Data (BitVec.ofNat 8 picCascadeIrq) d
  let d := dev.write pic1Data picIcw4Mode8086 d
  -- The mode of the second chip is written to the port of the first as well.
  let d := dev.write pic1Data picIcw4Mode8086 d
  let d := dev.write pic1Data 255#8 d
  dev.write pic2Data 255#8 d

end Driver

/-! ## The chips -/

/-- What a chip takes the next byte written to its data port for. -/
inductive PicPhase where
  | icw2 | icw3 | icw4 | mask
  deriving DecidableEq, Repr

/-- **An 8259 chip**: the initialisation words it has taken, and its mask
register. -/
structure PicChip where
  phase : PicPhase
  icw2 : BitVec 8
  icw3 : BitVec 8
  icw4 : BitVec 8
  mask : BitVec 8
  deriving DecidableEq, Repr

namespace PicChip

/-- A write to the command port. An ICW1 that announces an ICW4 clears the mask
register and starts the initialisation; other commands do not matter here. -/
def writeCommand (v : BitVec 8) (chip : PicChip) : PicChip :=
  if v &&& picIcw1Init ≠ 0#8 ∧ v &&& picIcw1Icw4Needed ≠ 0#8 then
    { chip with phase := .icw2, mask := 0#8 }
  else chip

/-- A write to the data port: the initialisation words in their order, and the
mask register once they are there. -/
def writeData (v : BitVec 8) (chip : PicChip) : PicChip :=
  match chip.phase with
  | .icw2 => { chip with phase := .icw3, icw2 := v }
  | .icw3 => { chip with phase := .icw4, icw3 := v }
  | .icw4 => { chip with phase := .mask, icw4 := v }
  | .mask => { chip with mask := v }

/-- The initialisation is complete, and the last word has chosen 8086 mode. -/
def Initialized (chip : PicChip) : Prop :=
  chip.phase = .mask ∧ chip.icw4 &&& picIcw4Mode8086 ≠ 0#8

instance : DecidablePred Initialized := fun _ => inferInstanceAs (Decidable (_ ∧ _))

end PicChip

/-- The two chips. -/
structure PicPair where
  pic1 : PicChip
  pic2 : PicChip
  deriving DecidableEq, Repr

/-- **The chips behind their ports.** -/
def picPair : PortDevice PicPair where
  read port d :=
    if port = pic1Data then (d.pic1.mask, d)
    else if port = pic2Data then (d.pic2.mask, d)
    else (0#8, d)
  write port v d :=
    if port = pic1Command then { d with pic1 := d.pic1.writeCommand v }
    else if port = pic1Data then { d with pic1 := d.pic1.writeData v }
    else if port = pic2Command then { d with pic2 := d.pic2.writeCommand v }
    else if port = pic2Data then { d with pic2 := d.pic2.writeData v }
    else d

namespace PicPair

/-- The mask bit of a line. -/
def masked (d : PicPair) (i : Fin 16) : Bool :=
  if i.val < 8 then d.pic1.mask.getLsbD i else d.pic2.mask.getLsbD (i - 8)

/-- Both chips are initialised. -/
def Initialized (d : PicPair) : Prop := d.pic1.Initialized ∧ d.pic2.Initialized

end PicPair

/-! ## Runs -/

/-- A call that changes the mask. -/
inductive PicCall where
  | enable (irq : Fin 16)
  | disable (irq : Fin 16)
  deriving DecidableEq, Repr

namespace PicCall

/-- The line a call is about. -/
def irq : PicCall → Fin 16
  | enable irq | disable irq => irq

/-- Whether a call masks its line. -/
def masks : PicCall → Bool
  | enable _ => false
  | disable _ => true

/-- A call on the chips. -/
def run (d : PicPair) : PicCall → PicPair
  | enable irq => picEnableIrq picPair (BitVec.ofNat 8 irq) d
  | disable irq => picDisableIrq picPair (BitVec.ofNat 8 irq) d

end PicCall

/-- The last call about a line enabled it. -/
def LastEnabled (i : Fin 16) (calls : List PicCall) : Prop :=
  (calls.filter (·.irq = i)).getLast? = some (.enable i)

variable {d : PicPair} {c : PicCall} {calls : List PicCall} {i : Fin 16}

/-- After `pic_init` the chips are initialised, the second with the byte that was
to be its mask. -/
theorem picInit_eq (offsetPic1 offsetPic2 : BitVec 32) (d : PicPair) :
    picInit picPair offsetPic1 offsetPic2 d =
      ⟨⟨.mask, offsetPic1.setWidth 8, 4#8, 1#8, 255#8⟩,
        ⟨.mask, offsetPic2.setWidth 8, 2#8, 255#8, 0#8⟩⟩ := by
  rfl

theorem initialized_picInit (offsetPic1 offsetPic2 : BitVec 32) (d : PicPair) :
    (picInit picPair offsetPic1 offsetPic2 d).Initialized := by
  rw [picInit_eq]
  exact ⟨⟨rfl, show 1#8 &&& picIcw4Mode8086 ≠ 0#8 by decide⟩,
    rfl, show 255#8 &&& picIcw4Mode8086 ≠ 0#8 by decide⟩

/-- After `pic_init` the lines of the first chip are masked, and those of the
second are not. -/
theorem masked_picInit (offsetPic1 offsetPic2 : BitVec 32) (d : PicPair) (i : Fin 16) :
    (picInit picPair offsetPic1 offsetPic2 d).masked i = decide (i.val < 8) := by
  rw [picInit_eq]
  show (if i.val < 8 then (255#8).getLsbD i else (0#8).getLsbD (i - 8)) = decide (i.val < 8)
  revert i
  decide

/-- An initialised chip takes a data byte for its mask. -/
theorem PicChip.writeData_of_mask {chip : PicChip} (h : chip.phase = .mask) (v : BitVec 8) :
    chip.writeData v = { chip with mask := v } := by
  unfold PicChip.writeData
  split <;> rename_i hphase
  · cases h.symm.trans hphase
  · cases h.symm.trans hphase
  · cases h.symm.trans hphase
  · rfl

theorem picLine_ofNat : ∀ i : Fin 16, picLine (BitVec.ofNat 8 i) =
    if i.val < 8 then (pic1Data, BitVec.ofNat 8 i) else (pic2Data, BitVec.ofNat 8 (i - 8)) := by
  decide

namespace PicCall

/-- What a call makes of the mask register. -/
def update (j : ℕ) (mask : BitVec 8) : PicCall → BitVec 8
  | enable _ => mask &&& ~~~(1#8 <<< j)
  | disable _ => mask ||| 1#8 <<< j

/-- **The bit of the line** is set or cleared, and the others stay. -/
theorem getLsbD_update {j k : ℕ} (hj : j < 8) (hk : k < 8) (mask : BitVec 8) (c : PicCall) :
    (c.update j mask).getLsbD k = if k = j then c.masks else mask.getLsbD k := by
  have hbit : (1#8 <<< j).getLsbD k = decide (k = j) := by
    rw [← BitVec.twoPow_eq, BitVec.getLsbD_twoPow, decide_eq_true hj, Bool.true_and]
    exact decide_eq_decide.mpr eq_comm
  cases c with
  | enable irq =>
    rw [update, BitVec.getLsbD_and, BitVec.getLsbD_not, hbit, decide_eq_true hk]
    by_cases h : k = j <;> simp [h, masks]
  | disable irq =>
    rw [update, BitVec.getLsbD_or, hbit]
    by_cases h : k = j <;> simp [h, masks]

/-- On initialised chips a call only changes the mask register of its line's
chip. -/
theorem run_eq (h : d.Initialized) (c : PicCall) :
    c.run d =
      if c.irq.val < 8 then
        { d with pic1 := { d.pic1 with mask := c.update c.irq d.pic1.mask } }
      else { d with pic2 := { d.pic2 with mask := c.update (c.irq - 8) d.pic2.mask } } := by
  have hline : ∀ j, j < 16 → (BitVec.ofNat 8 j).toNat = j := fun j hj => by
    rw [BitVec.toNat_ofNat]
    exact Nat.mod_eq_of_lt (hj.trans (by decide))
  by_cases hlt : c.irq.val < 8
  · rw [if_pos hlt, ← PicChip.writeData_of_mask h.1.1]
    cases c with
    | enable irq | disable irq =>
      simp only [run, picEnableIrq, picDisableIrq, picLine_ofNat,
        if_pos (show irq.val < 8 from hlt)]
      rw [hline _ irq.isLt]
      rfl
  · rw [if_neg hlt, ← PicChip.writeData_of_mask h.2.1]
    cases c with
    | enable irq | disable irq =>
      simp only [run, picEnableIrq, picDisableIrq, picLine_ofNat,
        if_neg (show ¬ irq.val < 8 from hlt)]
      rw [hline _ ((Nat.sub_le _ _).trans_lt irq.isLt)]
      rfl

/-- **The step**: the chips stay initialised, and of the masks only the one of
the call's line changes. -/
theorem initialized_run (h : d.Initialized) (c : PicCall) : (c.run d).Initialized := by
  rw [c.run_eq h]
  split
  · exact h
  · exact h

theorem masked_run (h : d.Initialized) (c : PicCall) (i : Fin 16) :
    (c.run d).masked i = if i = c.irq then c.masks else d.masked i := by
  have hi := i.isLt
  have hirq := c.irq.isLt
  rw [c.run_eq h]
  unfold PicPair.masked
  by_cases hchip : c.irq.val < 8 <;> by_cases hline : i.val < 8
  · simp only [hchip, hline, if_true]
    rw [getLsbD_update hchip hline]
    simp only [Fin.ext_iff]
  · have hne : i ≠ c.irq := fun heq => hline (heq ▸ hchip)
    simp only [hchip, hline, hne, if_true, if_false]
  · have hne : i ≠ c.irq := fun heq => hchip (heq ▸ hline)
    simp only [hchip, hline, hne, if_true, if_false]
  · simp only [hchip, hline, if_false]
    rw [getLsbD_update (by omega) (by omega)]
    simp only [Fin.ext_iff]
    by_cases heq : i.val = c.irq.val
    · rw [if_pos heq, if_pos (by omega)]
    · rw [if_neg heq, if_neg (by omega)]

end PicCall

/-- **The chips after a list of calls.** -/
def picRun (d : PicPair) (calls : List PicCall) : PicPair := calls.foldl PicCall.run d

theorem picRun_concat : picRun d (calls ++ [c]) = c.run (picRun d calls) := by
  rw [picRun, List.foldl_concat]
  rfl

theorem initialized_picRun (h : d.Initialized) (calls : List PicCall) :
    (picRun d calls).Initialized := by
  induction calls using List.reverseRecOn with
  | nil => exact h
  | append_singleton calls c ih =>
    rw [picRun_concat]
    exact c.initialized_run ih

/-- **A line is masked** as the last call about it says, or as it was if there is
none. -/
theorem masked_picRun (h : d.Initialized) (calls : List PicCall) (i : Fin 16) :
    (picRun d calls).masked i =
      ((calls.filter (·.irq = i)).getLast?.map PicCall.masks).getD (d.masked i) := by
  induction calls using List.reverseRecOn with
  | nil => rfl
  | append_singleton calls c ih =>
    rw [picRun_concat, c.masked_run (initialized_picRun h calls), ih, List.filter_append,
      List.filter_singleton]
    by_cases heq : i = c.irq
    · rw [if_pos heq, decide_eq_true heq.symm, cond_true, List.getLast?_concat]
      rfl
    · rw [if_neg heq, decide_eq_false fun h' => heq h'.symm, cond_false, List.append_nil]

/-- The last call about a line is one about it. -/
theorem eq_of_getLast?_filter (h : (calls.filter (·.irq = i)).getLast? = some c) : c.irq = i := by
  have hmem := List.mem_filter.mp (List.mem_of_getLast? h)
  exact of_decide_eq_true hmem.2

/-- A line about which there was a call is unmasked exactly if the last one
enabled it; any other line is as it was. -/
theorem masked_picRun_iff (h : d.Initialized) (calls : List PicCall) (i : Fin 16) :
    ((picRun d calls).masked i = false ↔ LastEnabled i calls) ↔
      (d.masked i = true ∨ ∃ c ∈ calls, c.irq = i) := by
  rw [masked_picRun h, LastEnabled]
  rcases hlast : (calls.filter (·.irq = i)).getLast? with _ | c <;> rw [hlast]
  · have hnone : ¬ ∃ c ∈ calls, c.irq = i := by
      rintro ⟨c, hc, hi⟩
      have hnil := List.getLast?_eq_none_iff.mp hlast
      exact List.not_mem_nil (hnil ▸ List.mem_filter.mpr ⟨hc, decide_eq_true hi⟩)
    simp [hnone]
  · have hc := eq_of_getLast?_filter hlast
    have hmem := (List.mem_filter.mp (List.mem_of_getLast? hlast)).1
    refine iff_of_true ?_ (.inr ⟨c, hmem, hc⟩)
    rw [Option.map_some, Option.getD_some, Option.some.injEq]
    cases c with
    | enable irq =>
      obtain rfl : irq = i := hc
      exact iff_of_true rfl rfl
    | disable irq => exact iff_of_false Bool.noConfusion PicCall.noConfusion

/-- **Interrupt masking.** Whatever state the chips are in before, and whatever
the offsets: after `pic_init` and any list of calls, both chips are initialised
and every line is unmasked exactly if the last call about it enabled it, if and
only if there was a call about every line of the second chip. -/
theorem picRun_masks_iff (d : PicPair) (offsetPic1 offsetPic2 : BitVec 32)
    (calls : List PicCall) :
    ((picRun (picInit picPair offsetPic1 offsetPic2 d) calls).Initialized ∧
      ∀ i, (picRun (picInit picPair offsetPic1 offsetPic2 d) calls).masked i = false
        ↔ LastEnabled i calls)
      ↔ ∀ i : Fin 16, 8 ≤ i.val → ∃ c ∈ calls, c.irq = i := by
  have hinit := initialized_picInit offsetPic1 offsetPic2 d
  simp only [initialized_picRun hinit calls, true_and, masked_picRun_iff hinit, masked_picInit,
    decide_eq_true_eq, or_iff_not_imp_left, Nat.not_lt]

/-- After `pic_init` alone, line 8 is not masked, though no call enabled it. -/
theorem picInit_unmasked :
    ¬ ∀ (d : PicPair) (calls : List PicCall) (i : Fin 16),
      (picRun (picInit picPair 0x20#32 0x28#32 d) calls).masked i = false
        ↔ LastEnabled i calls := by
  intro h
  have hlast := (h ⟨⟨.mask, 0, 0, 0, 0⟩, ⟨.mask, 0, 0, 0, 0⟩⟩ [] 8).mp (by decide)
  exact absurd hlast (by simp [LastEnabled])
