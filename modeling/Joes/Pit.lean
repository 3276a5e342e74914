import Joes.Uart

/-!
# The interval timer

`pit_init_channel` sets the mode and the frequency of a channel of the 8254. The interrupts
are off while it does so, since the divisor goes out in two bytes. The chip has three
counters, each of which takes its control word from the command port and its divisor from
a port of its own, byte by byte where the control word says so.

The driver returns early for a frequency out of bounds, without turning the interrupts on
again, and it turns them on where they were off. The divisor of the lowest frequency has
more than 16 bits and is cut. So a channel runs as it was asked for, and the interrupts are
as they were, exactly for a frequency from 19 Hz on and with interrupts
(`pitInitChannel_iff`).
-/

/-! ## The driver -/

/-- **What the driver acts on**: the device behind the I/O ports, and whether the processor
takes interrupts. -/
structure PitState (δ : Type) where
  device : δ
  interrupts : Bool
  deriving DecidableEq, Repr

/-- The programs of the driver. -/
abbrev PitProgram (δ α : Type) := Traced (PitState δ) LogCall α

/-- `pit_error_codes`. -/
inductive PitErrorCode where
  | ok | errorFrequencyOutOfBounds
  deriving DecidableEq, Repr

/-- `PIT_COMMAND`. -/
def pitCommand : BitVec 16 := 0x43#16

/-- `PIT_F_REF`. -/
def pitFRef : BitVec 64 := 1193182#64

/-- `PIT_MAX_FREQUENCY`. -/
def pitMaxFrequency : BitVec 64 := pitFRef

/-- `PIT_MIN_FREQUENCY`. -/
def pitMinFrequency : BitVec 64 := pitFRef / 65535#64

/-- `PIT_CHANNEL_0`. -/
def pitChannel0 : BitVec 8 := 0x40#8

/-- `PIT_CHANNEL_2`. -/
def pitChannel2 : BitVec 8 := 0x42#8

/-- `PIT_SC_COUNTER_0`. -/
def pitScCounter0 : BitVec 8 := 0#8

/-- `PIT_SC_COUNTER_2`. -/
def pitScCounter2 : BitVec 8 := 1#8 <<< 7

/-- `PIT_RW_LOW_HIGH`. -/
def pitRwLowHigh : BitVec 8 := 1#8 <<< 5 ||| 1#8 <<< 4

/-- `PIT_BCD_BINARY`. -/
def pitBcdBinary : BitVec 8 := 0#8

section Driver

variable {δ : Type} (dev : PortDevice δ)

/-- `port_write_byte`. -/
def pitWriteByte (port : BitVec 16) (data : BitVec 8) : PitProgram δ Unit :=
  Traced.modify fun s => { s with device := dev.write port data s.device }

/-- `cli` and `sti`. -/
def pitSetInterrupts (on : Bool) : PitProgram δ Unit :=
  Traced.modify fun s => { s with interrupts := on }

/-- `pit_init_channel`. -/
def pitInitChannel (channel : BitVec 8) (frequency : BitVec 64) (mode : BitVec 8) :
    PitProgram δ PitErrorCode := do
  pitSetInterrupts false
  if frequency < pitMinFrequency ∨ pitMaxFrequency < frequency then do
    Traced.emit ⟨.error, "Frequency out of bounds! (f=%dHz)", [.int (frequency.setWidth 32)]⟩
    pure .errorFrequencyOutOfBounds
  else do
    let divisor : BitVec 32 := (pitFRef / frequency).setWidth 32
    let divisor := if 65535#32 < divisor then 65535#32 else divisor
    let selectCounter := if channel = pitChannel0 then pitScCounter0 else pitScCounter2
    pitWriteByte dev pitCommand (selectCounter ||| pitRwLowHigh ||| mode ||| pitBcdBinary)
    pitWriteByte dev (channel.setWidth 16) ((divisor &&& 0x00ff#32).setWidth 8)
    pitWriteByte dev (channel.setWidth 16) (((divisor &&& 0xff00#32) >>> 8).setWidth 8)
    pitSetInterrupts true
    pure .ok

end Driver

/-! ## The chip -/

/-- **A counter**: which bytes of its divisor it takes, its mode, whether it counts in
decimal digits, its divisor, and the lower byte of one that is not complete. -/
structure PitCounter where
  access : BitVec 2
  mode : BitVec 3
  bcd : Bool
  reload : BitVec 16
  pending : Option (BitVec 8)
  deriving DecidableEq, Repr

namespace PitCounter

/-- A control word for the counter. One with no byte to take only holds the count for
reading. -/
def command (v : BitVec 8) (c : PitCounter) : PitCounter :=
  if v.extractLsb' 4 2 = 0#2 then c
  else
    { c with
      access := v.extractLsb' 4 2
      mode := v.extractLsb' 1 3
      bcd := v.getLsbD 0
      pending := none }

/-- A byte for the divisor. -/
def load (v : BitVec 8) (c : PitCounter) : PitCounter :=
  if c.access = 1#2 then { c with reload := 0#8 ++ v }
  else if c.access = 2#2 then { c with reload := v ++ 0#8 }
  else
    match c.pending with
    | none => { c with pending := some v }
    | some low => { c with reload := v ++ low, pending := none }

end PitCounter

/-- The chip with its counters. -/
structure PitChip where
  counter : Fin 3 → PitCounter

namespace PitChip

/-- A change of a counter. -/
def modify (i : Fin 3) (f : PitCounter → PitCounter) (d : PitChip) : PitChip :=
  ⟨Function.update d.counter i (f (d.counter i))⟩

/-- **The chip behind its ports.** A control word for no counter reads back the counts. -/
def device : PortDevice PitChip where
  read _ d := (0#8, d)
  write port v d :=
    if port = 0x40#16 then d.modify 0 (PitCounter.load v)
    else if port = 0x41#16 then d.modify 1 (PitCounter.load v)
    else if port = 0x42#16 then d.modify 2 (PitCounter.load v)
    else if port = pitCommand then
      if v.extractLsb' 6 2 = 0#2 then d.modify 0 (PitCounter.command v)
      else if v.extractLsb' 6 2 = 1#2 then d.modify 1 (PitCounter.command v)
      else if v.extractLsb' 6 2 = 2#2 then d.modify 2 (PitCounter.command v)
      else d
    else d

end PitChip

/-- **The channels** of the driver. -/
inductive PitChannel where
  | channel0 | channel2
  deriving DecidableEq, Repr

namespace PitChannel

/-- `PIT_CHANNEL_0` and `PIT_CHANNEL_2`. -/
def value : PitChannel → BitVec 8
  | channel0 => pitChannel0
  | channel2 => pitChannel2

/-- The counter of a channel. -/
def counter : PitChannel → Fin 3
  | channel0 => 0
  | channel2 => 2

end PitChannel

/-- **The modes** of a counter. -/
inductive PitMode where
  | intOnTerminalCount | hardwareTrigOneshot | rateGen | squareWave | softwareTrigStrobe
  | hardwareTrigStrobe
  deriving DecidableEq, Repr

namespace PitMode

/-- `PIT_MODE_INT_ON_TERMINAL_COUNT` and the others. -/
def value : PitMode → BitVec 8
  | intOnTerminalCount => 0#8
  | hardwareTrigOneshot => 1#8 <<< 1
  | rateGen => 1#8 <<< 2
  | squareWave => 1#8 <<< 1 ||| 1#8 <<< 2
  | softwareTrigStrobe => 1#8 <<< 3
  | hardwareTrigStrobe => 1#8 <<< 3 ||| 1#8 <<< 1

/-- The number that the chip has for a mode. -/
def number : PitMode → BitVec 3
  | intOnTerminalCount => 0#3
  | hardwareTrigOneshot => 1#3
  | rateGen => 2#3
  | squareWave => 3#3
  | softwareTrigStrobe => 4#3
  | hardwareTrigStrobe => 5#3

end PitMode

/-! ## What the driver makes of it -/

namespace PitChip

variable {channel : PitChannel} {mode : PitMode}

/-- The control word of a channel is one for its counter. -/
theorem write_command (channel : PitChannel) (mode : PitMode) (d : PitChip) :
    device.write pitCommand ((if channel.value = pitChannel0 then pitScCounter0 else pitScCounter2)
        ||| pitRwLowHigh ||| mode.value ||| pitBcdBinary) d
      = d.modify channel.counter fun c => { c with
          access := 3#2
          mode := mode.number
          bcd := false
          pending := none } := by
  cases channel <;> cases mode <;> rfl

/-- And its port takes the divisor. -/
theorem write_value (channel : PitChannel) (v : BitVec 8) (d : PitChip) :
    device.write (channel.value.setWidth 16) v d
      = d.modify channel.counter (PitCounter.load v) := by
  cases channel <;> rfl

end PitChip

/-- **A counter runs** at a frequency: in its mode, with binary digits, and with the divisor
that is for the frequency. -/
structure PitCounter.RunsAt (c : PitCounter) (frequency : BitVec 64) (mode : PitMode) : Prop where
  mode_eq : c.mode = mode.number
  bcd_eq : c.bcd = false
  pending_eq : c.pending = none
  reload_eq : c.reload.toNat = 1193182 / frequency.toNat

/-- The divisor that is sent for a frequency. -/
def pitDivisor (frequency : BitVec 64) : BitVec 32 :=
  let divisor : BitVec 32 := (pitFRef / frequency).setWidth 32
  if 65535#32 < divisor then 65535#32 else divisor

/-- The counter once the control word and the two bytes of the divisor are there. -/
def PitCounter.loaded (divisor : BitVec 32) (mode : PitMode) : PitCounter where
  access := 3#2
  mode := mode.number
  bcd := false
  reload := ((divisor &&& 0xff00#32) >>> 8).setWidth 8 ++ (divisor &&& 0x00ff#32).setWidth 8
  pending := none

theorem PitChip.modify_modify (i : Fin 3) (f g : PitCounter → PitCounter) (d : PitChip) :
    (d.modify i f).modify i g = d.modify i fun c => g (f c) := by
  show PitChip.mk (Function.update (Function.update d.counter i (f (d.counter i))) i
    (g (Function.update d.counter i (f (d.counter i)) i))) = _
  rw [Function.update_self, Function.update_idem]
  rfl

section Setup

variable {channel : PitChannel} {frequency : BitVec 64} {mode : PitMode} {d : PitChip}
  {interrupts : Bool}

/-- A frequency out of bounds turns the interrupts off, and no more. -/
theorem pitInitChannel_refused
    (h : frequency < pitMinFrequency ∨ pitMaxFrequency < frequency) :
    (pitInitChannel PitChip.device channel.value frequency mode.value).Returns ⟨d, interrupts⟩
      .errorFrequencyOutOfBounds ⟨d, false⟩ := by
  refine Traced.returns_bind.mpr ⟨(), ⟨d, false⟩, Traced.returns_modify.mpr ⟨rfl, rfl⟩, ?_⟩
  rw [if_pos h]
  exact Traced.returns_bind.mpr
    ⟨(), _, Traced.returns_emit.mpr ⟨rfl, rfl⟩, Traced.returns_pure.mpr ⟨rfl, rfl⟩⟩

/-- Any other one loads the counter of the channel. -/
theorem pitInitChannel_accepted
    (h : ¬ (frequency < pitMinFrequency ∨ pitMaxFrequency < frequency)) :
    (pitInitChannel PitChip.device channel.value frequency mode.value).Returns ⟨d, interrupts⟩
      .ok ⟨d.modify channel.counter fun _ => PitCounter.loaded (pitDivisor frequency) mode,
        true⟩ := by
  have hchip : ∀ low high : BitVec 8,
      PitChip.device.write (channel.value.setWidth 16) high
        (PitChip.device.write (channel.value.setWidth 16) low
          (PitChip.device.write pitCommand
            ((if channel.value = pitChannel0 then pitScCounter0 else pitScCounter2)
              ||| pitRwLowHigh ||| mode.value ||| pitBcdBinary) d))
      = d.modify channel.counter fun _ => ⟨3#2, mode.number, false, high ++ low, none⟩ := by
    intro low high
    rw [PitChip.write_command, PitChip.write_value, PitChip.write_value, PitChip.modify_modify,
      PitChip.modify_modify]
    rfl
  refine ⟨[], Traced.Runs.modify_seq ?_⟩
  rw [if_neg h]
  refine Traced.Runs.modify_seq (Traced.Runs.modify_seq (Traced.Runs.modify_seq ?_))
  refine Traced.Runs.modify_seq (Traced.runs_pure.mpr ⟨rfl, ?_, rfl⟩)
  exact congrArg (PitState.mk · true) (hchip _ _)

/-- The two bytes of a divisor. -/
theorem reload_loaded (divisor : BitVec 32) (mode : PitMode) :
    (PitCounter.loaded divisor mode).reload = divisor.setWidth 16 := by
  show ((divisor &&& 0xff00#32) >>> 8).setWidth 8 ++ (divisor &&& 0x00ff#32).setWidth 8
    = divisor.setWidth (8 + 8)
  ext i hi
  rw [BitVec.getElem_append]
  interval_cases i <;> simp

/-- The bounds of the frequencies. -/
theorem outOfBounds_iff : frequency < pitMinFrequency ∨ pitMaxFrequency < frequency
    ↔ frequency.toNat < 18 ∨ 1193182 < frequency.toNat := Iff.rfl

/-- **The divisor** is the one for the frequency, but no more than 16 bits can hold. -/
theorem toNat_pitDivisor (frequency : BitVec 64) :
    (pitDivisor frequency).toNat = min (1193182 / frequency.toNat) 65535 := by
  have hquotient : ((pitFRef / frequency).setWidth 32 : BitVec 32).toNat
      = 1193182 / frequency.toNat := by
    rw [BitVec.toNat_setWidth, BitVec.toNat_udiv]
    refine Nat.mod_eq_of_lt ?_
    calc 1193182 / frequency.toNat ≤ 1193182 := Nat.div_le_self _ _
      _ < 2 ^ 32 := by decide
  unfold pitDivisor
  dsimp only
  split
  · next h =>
    rw [BitVec.lt_def, hquotient] at h
    exact (min_eq_right h.le).symm
  · next h =>
    rw [BitVec.lt_def, hquotient] at h
    exact hquotient.trans (min_eq_left (not_lt.mp h)).symm

/-- The divisor of 18 Hz is the only one that is cut. -/
theorem divisor_le_iff (hlow : 18 ≤ frequency.toNat) :
    1193182 / frequency.toNat ≤ 65535 ↔ 19 ≤ frequency.toNat := by
  constructor
  · intro h
    by_contra hlt
    rw [show frequency.toNat = 18 by omega] at h
    exact absurd h (by decide)
  · intro h
    calc 1193182 / frequency.toNat ≤ 1193182 / 19 := Nat.div_le_div_left h (by decide)
      _ ≤ 65535 := by decide

/-- **The counter runs at the frequency** exactly if its divisor was not cut. -/
theorem runsAt_loaded_iff (hlow : 18 ≤ frequency.toNat) (mode : PitMode) :
    (PitCounter.loaded (pitDivisor frequency) mode).RunsAt frequency mode
      ↔ 19 ≤ frequency.toNat := by
  have hreload : (PitCounter.loaded (pitDivisor frequency) mode).reload.toNat
      = min (1193182 / frequency.toNat) 65535 := by
    rw [reload_loaded, BitVec.toNat_setWidth, toNat_pitDivisor]
    exact Nat.mod_eq_of_lt ((min_le_right _ _).trans_lt (by decide))
  rw [← divisor_le_iff hlow, ← min_eq_left_iff, ← hreload]
  exact ⟨fun h => h.reload_eq, fun h => ⟨rfl, rfl, rfl, h⟩⟩

/-- **A channel is set up** as it was asked for, with the interrupts as they were, exactly
for a frequency from 19 Hz to that of the reference clock and where there were interrupts.
For a frequency out of bounds the chip is as it was and there are no interrupts any more,
and the other counters stay in any case. -/
theorem pitInitChannel_iff (channel : PitChannel) (frequency : BitVec 64) (mode : PitMode)
    (d : PitChip) (interrupts : Bool) :
    ∃ r s', (pitInitChannel PitChip.device channel.value frequency mode.value).Returns
        ⟨d, interrupts⟩ r s' ∧
      (r = .errorFrequencyOutOfBounds ↔ frequency.toNat < 18 ∨ 1193182 < frequency.toNat) ∧
      (r = .errorFrequencyOutOfBounds → s' = ⟨d, false⟩) ∧
      (∀ i ≠ channel.counter, s'.device.counter i = d.counter i) ∧
      (r = .ok ∧ (s'.device.counter channel.counter).RunsAt frequency mode ∧
          s'.interrupts = interrupts
        ↔ 19 ≤ frequency.toNat ∧ frequency.toNat ≤ 1193182 ∧ interrupts = true) := by
  by_cases hout : frequency < pitMinFrequency ∨ pitMaxFrequency < frequency
  · have hbounds := outOfBounds_iff.mp hout
    refine ⟨_, _, pitInitChannel_refused hout, iff_of_true rfl hbounds, fun _ => rfl,
      fun _ _ => rfl, iff_of_false (fun h => by cases h.1) fun h => by omega⟩
  · have hbounds := mt outOfBounds_iff.mpr hout
    refine ⟨_, _, pitInitChannel_accepted hout, iff_of_false (by decide) hbounds,
      (fun h => by cases h), fun i hi => Function.update_of_ne hi _ _, ?_⟩
    have hcounter : (d.modify channel.counter fun _ => PitCounter.loaded (pitDivisor frequency)
        mode).counter channel.counter = PitCounter.loaded (pitDivisor frequency) mode :=
      Function.update_self _ _ _
    rw [hcounter, runsAt_loaded_iff (by omega)]
    constructor
    · rintro ⟨-, hlow, hon⟩
      exact ⟨hlow, by omega, hon.symm⟩
    · rintro ⟨hlow, -, hon⟩
      exact ⟨rfl, hlow, hon.symm⟩

end Setup
