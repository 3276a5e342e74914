import Joes.Logging
import Joes.Pic

/-!
# Setting up a serial port

`serial_init` sets the baud rate, the format of the bytes and the FIFOs of a serial port,
and `serial_test` sends a byte to itself. The device behind the ports is a UART with its
registers, of which two are other ones while the bit DLAB is set. What its loopback makes
of a byte is a parameter, so that a broken one is a UART, too.

The constants of the modes are those of the driver's header. The ones of the stop bits and
of the parity are not shifted to the bits that the UART has for them, and the divisor of the
lowest baud rate has more than 16 bits. So a port is set up as it was asked for exactly with
one stop bit, without parity, and at another rate than 1 (`serialInit_configures_iff`).
-/

/-! ## The driver -/

/-- A call of one of the logging macros. -/
structure LogCall where
  level : LoggingLevel
  msg : String
  list : List VaArg

/-- The programs of the driver, on the device behind the I/O ports. -/
abbrev UartProgram (δ α : Type) := Traced δ LogCall α

/-- `serial_error_codes_t`. -/
inductive SerialErrorCode where
  | ok | errorBrOutOfBounds | loopbackFailed
  deriving DecidableEq, Repr

/-- `SERIAL_INT_ENABLE_REG`. -/
def serialIntEnableReg (port : BitVec 16) : BitVec 16 := port + 1#16

/-- `SERIAL_FIFO_CONTROL_REG`. -/
def serialFifoControlReg (port : BitVec 16) : BitVec 16 := port + 2#16

/-- `SERIAL_LINE_CONTROL_REG`. -/
def serialLineControlReg (port : BitVec 16) : BitVec 16 := port + 3#16

/-- `SERIAL_MODEM_CONTROL_REG`. -/
def serialModemControlReg (port : BitVec 16) : BitVec 16 := port + 4#16

/-- `SERIAL_BR_LOW_REG`. -/
def serialBrLowReg (port : BitVec 16) : BitVec 16 := port

/-- `SERIAL_BR_HIGH_REG`. -/
def serialBrHighReg (port : BitVec 16) : BitVec 16 := port + 1#16

/-- `SERIAL_LOOPBACK_MODE`. -/
def serialLoopbackMode : BitVec 8 := 0b00011011#8

/-- `SERIAL_NORMAL_MODE`. -/
def serialNormalMode : BitVec 8 := 0b00001011#8

/-- `SERIAL_BAUD_RATE_MAX`. -/
def serialBaudRateMax : BitVec 32 := 115200#32

/-- `SERIAL_TEST_BYTE`. -/
def serialTestByte : BitVec 8 := 0x69#8

/-- `SERIAL_CLEAR_TX_FIFO | SERIAL_CLEAR_RX_FIFO | SERIAL_ENABLE_FIFOS`. -/
def serialFifos : BitVec 8 := 1#8 <<< 2 ||| 1#8 <<< 1 ||| 1#8

section Driver

variable {δ : Type} (dev : PortDevice δ)

/-- `port_read_byte`. -/
def uartReadByte (port : BitVec 16) : UartProgram δ (BitVec 8) := Traced.modifyGet (dev.read port)

/-- `port_write_byte`. -/
def uartWriteByte (port : BitVec 16) (data : BitVec 8) : UartProgram δ Unit :=
  Traced.modify (dev.write port data)

/-- `LOG_INFO` and `LOG_ERROR`. -/
def uartLog (level : LoggingLevel) (msg : String) (list : List VaArg) : UartProgram δ Unit :=
  Traced.emit ⟨level, msg, list⟩

/-- `serial_test`. -/
def serialTest (port : BitVec 16) : UartProgram δ SerialErrorCode := do
  uartWriteByte dev (serialModemControlReg port) serialLoopbackMode
  uartWriteByte dev port serialTestByte
  let data ← uartReadByte dev port
  if data = serialTestByte then do
    uartLog .info "Loopback OK." []
    uartWriteByte dev (serialModemControlReg port) serialNormalMode
    pure .ok
  else do
    uartLog .error "Loopback failed!" []
    uartWriteByte dev (serialModemControlReg port) serialNormalMode
    pure .loopbackFailed

/-- `serial_init`. -/
def serialInit (port : BitVec 16) (baudRate : BitVec 32) (mode : BitVec 8) :
    UartProgram δ SerialErrorCode := do
  uartLog .info "Initializing serial driver..." []
  if serialBaudRateMax < baudRate ∨ baudRate < 1#32 then do
    uartLog .error "Baud rate out of bounds! (br=%d)" [.int baudRate]
    pure .errorBrOutOfBounds
  else do
    uartWriteByte dev (serialIntEnableReg port) 0#8
    let divisor : BitVec 16 := (serialBaudRateMax / baudRate).setWidth 16
    uartWriteByte dev (serialLineControlReg port) (1#8 <<< 7)
    uartWriteByte dev (serialBrLowReg port) ((divisor &&& 0x00ff#16).setWidth 8)
    uartWriteByte dev (serialBrHighReg port) (((divisor &&& 0xff00#16) >>> 8).setWidth 8)
    uartWriteByte dev (serialLineControlReg port) mode
    uartWriteByte dev (serialFifoControlReg port) serialFifos
    let result ← serialTest dev port
    if result = .loopbackFailed then pure .loopbackFailed else pure .ok

end Driver

/-! ## Modes -/

/-- `SERIAL_DATA_BITS_5` to `SERIAL_DATA_BITS_8`. -/
inductive SerialDataBits where
  | five | six | seven | eight
  deriving DecidableEq, Repr

/-- `SERIAL_PARITY_NONE` and the others. -/
inductive SerialParity where
  | none | odd | even | mark | space
  deriving DecidableEq, Repr

/-- `SERIAL_STOP_BITS_1` and `SERIAL_STOP_BITS_2`. -/
inductive SerialStopBits where
  | one | two
  deriving DecidableEq, Repr

/-- **The format of a byte on the line.** -/
structure SerialMode where
  dataBits : SerialDataBits
  parity : SerialParity
  stopBits : SerialStopBits
  deriving DecidableEq, Repr

/-- The value of a constant. -/
def SerialDataBits.value : SerialDataBits → BitVec 8
  | eight => 0b11#8
  | seven => 0b10#8
  | six => 0b01#8
  | five => 0b00#8

/-- The value of a constant. -/
def SerialStopBits.value : SerialStopBits → BitVec 8
  | one => 0#8
  | two => 1#8

/-- The value of a constant. -/
def SerialParity.value : SerialParity → BitVec 8
  | none => 0b000#8
  | odd => 0b001#8
  | even => 0b011#8
  | mark => 0b101#8
  | space => 0b111#8

/-- The mode that is passed to `serial_init`: the constants, joined by `|`. -/
def SerialMode.value (m : SerialMode) : BitVec 8 :=
  m.dataBits.value ||| m.parity.value ||| m.stopBits.value

/-- **What the line control register means**: the length of a word in the bits 0 and 1,
the stop bits in bit 2, and whether there is a parity, and which one, in the bits 3 to 5. -/
def SerialMode.decode (lineControl : BitVec 8) : SerialMode where
  dataBits :=
    match lineControl.getLsbD 1, lineControl.getLsbD 0 with
    | false, false => .five
    | false, true => .six
    | true, false => .seven
    | true, true => .eight
  parity :=
    match lineControl.getLsbD 3, lineControl.getLsbD 5, lineControl.getLsbD 4 with
    | false, _, _ => .none
    | true, false, false => .odd
    | true, false, true => .even
    | true, true, false => .mark
    | true, true, true => .space
  stopBits := if lineControl.getLsbD 2 then .two else .one

/-- **Which formats the constants stand for**: those with one stop bit and no parity. -/
theorem decode_value_iff (m : SerialMode) :
    SerialMode.decode m.value = m ↔ m.parity = .none ∧ m.stopBits = .one := by
  obtain ⟨dataBits, parity, stopBits⟩ := m
  cases dataBits <;> cases parity <;> cases stopBits <;> decide

/-- No mode sets DLAB. -/
theorem getLsbD_value (m : SerialMode) : m.value.getLsbD 7 = false := by
  obtain ⟨dataBits, parity, stopBits⟩ := m
  cases dataBits <;> cases parity <;> cases stopBits <;> rfl

/-! ## The device -/

/-- **A UART**: its registers, the bytes it has received, those it has put on the line, and
the time until its transmitter is empty. -/
structure Uart where
  interruptEnable : BitVec 8
  fifoControl : BitVec 8
  lineControl : BitVec 8
  modemControl : BitVec 8
  divisorLow : BitVec 8
  divisorHigh : BitVec 8
  received : List (BitVec 8)
  sent : List (BitVec 8)
  busy : ℕ
  deriving DecidableEq, Repr

namespace Uart

/-- The bit DLAB, with which the registers at 0 and 1 are those of the divisor. -/
def dlab (d : Uart) : Bool := d.lineControl.getLsbD 7

/-- What is sent is received. -/
def loopback (d : Uart) : Bool := d.modemControl.getLsbD 4

/-- The divisor. -/
def divisor (d : Uart) : BitVec 16 := d.divisorHigh ++ d.divisorLow

/-- The line status register: whether a byte was received, and whether the transmitter is
empty. -/
def lineStatus (d : Uart) : BitVec 8 :=
  (if d.received = [] then 0#8 else 1#8) ||| if d.busy = 0 then 1#8 <<< 5 else 0#8

/-- A byte for the transmitter. One that is still there is lost. -/
def transmit (latency : ℕ → ℕ) (v : BitVec 8) (d : Uart) : Uart :=
  { d with
    sent := (if d.busy = 0 then d.sent else d.sent.dropLast) ++ [v]
    busy := latency d.sent.length }

/-- The bytes received. -/
def setReceived (cs : List (BitVec 8)) (d : Uart) : Uart := { d with received := cs }

/-- Writing the interrupt enable register. -/
def setInterruptEnable (v : BitVec 8) (d : Uart) : Uart := { d with interruptEnable := v }

/-- Writing the FIFO control register. Bit 1 empties the FIFO of the receiver. -/
def setFifoControl (v : BitVec 8) (d : Uart) : Uart :=
  { d with fifoControl := v, received := if v.getLsbD 1 then [] else d.received }

/-- Writing the line control register. -/
def setLineControl (v : BitVec 8) (d : Uart) : Uart := { d with lineControl := v }

/-- Writing the modem control register. -/
def setModemControl (v : BitVec 8) (d : Uart) : Uart := { d with modemControl := v }

/-- Writing the low byte of the divisor. -/
def setDivisorLow (v : BitVec 8) (d : Uart) : Uart := { d with divisorLow := v }

/-- Writing the high byte of the divisor. -/
def setDivisorHigh (v : BitVec 8) (d : Uart) : Uart := { d with divisorHigh := v }

/-- Reading a register. Reading the status takes the time that the transmitter needs. -/
def readRegister (d : Uart) : ℕ → BitVec 8 × Uart
  | 0 => if d.dlab then (d.divisorLow, d)
    else (d.received.headD 0#8, d.setReceived d.received.tail)
  | 1 => (if d.dlab then d.divisorHigh else d.interruptEnable, d)
  | 3 => (d.lineControl, d)
  | 4 => (d.modemControl, d)
  | 5 => (d.lineStatus, { d with busy := d.busy - 1 })
  | _ => (0#8, d)

/-- Writing a register, with what the loopback makes of a byte and how long it takes to
transmit one. -/
def writeRegister (echo : BitVec 8 → BitVec 8) (latency : ℕ → ℕ) (v : BitVec 8) (d : Uart) :
    ℕ → Uart
  | 0 =>
    if d.dlab then d.setDivisorLow v
    else if d.loopback then d.setReceived (d.received ++ [echo v])
    else d.transmit latency v
  | 1 => if d.dlab then d.setDivisorHigh v else d.setInterruptEnable v
  | 2 => d.setFifoControl v
  | 3 => d.setLineControl v
  | 4 => d.setModemControl v
  | _ => d

/-- **The UART behind its ports.** -/
def device (base : BitVec 16) (echo : BitVec 8 → BitVec 8) (latency : ℕ → ℕ) :
    PortDevice Uart where
  read port d := d.readRegister (port - base).toNat
  write port v d := d.writeRegister echo latency v (port - base).toNat

/-- **A port set up** as it was asked for: the format of its bytes and the divisor of its
rate, no interrupts, and FIFOs with nothing in them. A byte for its data port is one for the
line. -/
structure SetUp (d : Uart) (baudRate : BitVec 32) (m : SerialMode) : Prop where
  format_eq : SerialMode.decode d.lineControl = m
  divisor_eq : d.divisor.toNat = 115200 / baudRate.toNat
  interruptEnable_eq : d.interruptEnable = 0#8
  received_eq : d.received = []
  dlab_eq : d.dlab = false
  loopback_eq : d.loopback = false

section Registers

variable {base : BitVec 16} {echo : BitVec 8 → BitVec 8} {latency : ℕ → ℕ} {d : Uart}
  {v : BitVec 8}

/-- The registers by their offsets. -/
theorem read_add (base k : BitVec 16) (d : Uart) :
    (device base echo latency).read (base + k) d = d.readRegister k.toNat := by
  show d.readRegister (base + k - base).toNat = _
  rw [BitVec.add_comm, BitVec.add_sub_cancel]

theorem write_add (base k : BitVec 16) (v : BitVec 8) (d : Uart) :
    (device base echo latency).write (base + k) v d
      = d.writeRegister echo latency v k.toNat := by
  show d.writeRegister echo latency v (base + k - base).toNat = _
  rw [BitVec.add_comm, BitVec.add_sub_cancel]

theorem read_base (base : BitVec 16) (d : Uart) :
    (device base echo latency).read base d = d.readRegister 0 := by
  show d.readRegister (base - base).toNat = _
  rw [BitVec.sub_self]
  rfl

theorem write_base (base : BitVec 16) (v : BitVec 8) (d : Uart) :
    (device base echo latency).write base v d = d.writeRegister echo latency v 0 := by
  show d.writeRegister echo latency v (base - base).toNat = _
  rw [BitVec.sub_self]
  rfl

/-- The registers that are always behind their ports. -/
theorem write_fifoControl :
    (device base echo latency).write (serialFifoControlReg base) v d = d.setFifoControl v :=
  write_add base 2#16 v d

theorem write_lineControl :
    (device base echo latency).write (serialLineControlReg base) v d = d.setLineControl v :=
  write_add base 3#16 v d

theorem write_modemControl :
    (device base echo latency).write (serialModemControlReg base) v d = d.setModemControl v :=
  write_add base 4#16 v d

/-- Those of the divisor. -/
theorem write_brLow (h : d.dlab = true) :
    (device base echo latency).write (serialBrLowReg base) v d = d.setDivisorLow v :=
  (write_base base v d).trans (if_pos h)

theorem write_brHigh (h : d.dlab = true) :
    (device base echo latency).write (serialBrHighReg base) v d = d.setDivisorHigh v :=
  (write_add base 1#16 v d).trans (if_pos h)

/-- Those in their place: the bytes received and sent. -/
theorem write_base_of_loopback (h : d.dlab = false) (hloop : d.loopback = true) :
    (device base echo latency).write base v d = d.setReceived (d.received ++ [echo v]) := by
  rw [write_base, writeRegister, h, hloop]
  rfl

theorem write_base_of_online (h : d.dlab = false) (hloop : d.loopback = false) :
    (device base echo latency).write base v d = d.transmit latency v := by
  rw [write_base, writeRegister, h, hloop]
  rfl

theorem read_base_setReceived (d : Uart) (h : d.dlab = false) (c : BitVec 8) :
    (device base echo latency).read base (d.setReceived [c]) = (c, d.setReceived []) := by
  rw [read_base, readRegister, show (d.setReceived [c]).dlab = false from h]
  rfl

end Registers

end Uart

/-! ## What the driver makes of it -/

section Steps

variable {δ α : Type} {dev : PortDevice δ} {port : BitVec 16} {v : BitVec 8} {d d₁ d' : δ}
  {r : α}

/-- A program goes on from what a byte written makes of the device. -/
theorem uartWriteByte_seq {f : Unit → UartProgram δ α} (h : dev.write port v d = d₁)
    (hf : (f ()).Returns d₁ r d') : (uartWriteByte dev port v >>= f).Returns d r d' :=
  Traced.returns_bind.mpr ⟨(), d₁, Traced.returns_modify.mpr ⟨rfl, h⟩, hf⟩

theorem uartReadByte_seq {f : BitVec 8 → UartProgram δ α} (h : dev.read port d = (v, d₁))
    (hf : (f v).Returns d₁ r d') : (uartReadByte dev port >>= f).Returns d r d' :=
  Traced.returns_bind.mpr
    ⟨v, d₁, Traced.returns_modifyGet.mpr ⟨congrArg Prod.fst h, congrArg Prod.snd h⟩, hf⟩

theorem uartLog_seq {level : LoggingLevel} {msg : String} {list : List VaArg}
    {f : Unit → UartProgram δ α} (hf : (f ()).Returns d r d') :
    (uartLog level msg list >>= f).Returns d r d' :=
  Traced.returns_bind.mpr ⟨(), d, Traced.returns_emit.mpr ⟨rfl, rfl⟩, hf⟩

end Steps

section Setup

open Uart

variable {base : BitVec 16} {echo : BitVec 8 → BitVec 8} {latency : ℕ → ℕ} {d : Uart}
  {baudRate : BitVec 32} {mode : BitVec 8}

/-- **The test** of a port that has received nothing succeeds exactly if the loopback gives
the byte back. -/
theorem serialTest_returns (hdlab : d.dlab = false) (hempty : d.received = []) :
    (serialTest (device base echo latency) base).Returns d
      (if echo serialTestByte = serialTestByte then .ok else .loopbackFailed)
      (d.setModemControl serialNormalMode) := by
  have hloop : serialLoopbackMode.getLsbD 4 = true := by decide
  have hreceived : d.received ++ [echo serialTestByte] = [echo serialTestByte] := by
    rw [hempty, List.nil_append]
  have hend : ((d.setModemControl serialLoopbackMode).setReceived []).setModemControl
      serialNormalMode = d.setModemControl serialNormalMode := by
    rw [← hempty]
    rfl
  refine uartWriteByte_seq write_modemControl ?_
  refine uartWriteByte_seq (write_base_of_loopback hdlab hloop) ?_
  rw [show (d.setModemControl serialLoopbackMode).received = d.received from rfl, hreceived]
  refine uartReadByte_seq
    (read_base_setReceived (d.setModemControl serialLoopbackMode) hdlab _) ?_
  -- The port goes back to normal, whatever the byte is.
  by_cases hecho : echo serialTestByte = serialTestByte
  · rw [if_pos hecho, if_pos hecho]
    exact uartLog_seq (uartWriteByte_seq write_modemControl (Traced.returns_pure.mpr ⟨rfl, hend⟩))
  · rw [if_neg hecho, if_neg hecho]
    exact uartLog_seq (uartWriteByte_seq write_modemControl (Traced.returns_pure.mpr ⟨rfl, hend⟩))

/-- **What the registers hold** after the port was set up. The first write finds the
interrupts behind the divisor if DLAB is set. -/
def Uart.configured (d : Uart) (divisor : BitVec 16) (mode : BitVec 8) : Uart :=
  { d with
    interruptEnable := if d.dlab then d.interruptEnable else 0#8
    fifoControl := serialFifos
    lineControl := mode
    modemControl := serialNormalMode
    divisorLow := (divisor &&& 0x00ff#16).setWidth 8
    divisorHigh := ((divisor &&& 0xff00#16) >>> 8).setWidth 8
    received := [] }

theorem serialInit_returns (hlow : 1#32 ≤ baudRate) (hhigh : baudRate ≤ serialBaudRateMax)
    (hmode : mode.getLsbD 7 = false) :
    (serialInit (device base echo latency) base baudRate mode).Returns d
      (if echo serialTestByte = serialTestByte then .ok else .loopbackFailed)
      (configured d ((serialBaudRateMax / baudRate).setWidth 16) mode) := by
  have hrange : ¬ (serialBaudRateMax < baudRate ∨ baudRate < 1#32) := by
    rintro (h | h)
    · exact absurd hhigh (BitVec.not_le.mpr h)
    · exact absurd hlow (BitVec.not_le.mpr h)
  have hbit : (1#8 <<< 7).getLsbD 7 = true := by decide
  refine uartLog_seq ?_
  rw [if_neg hrange]
  refine uartWriteByte_seq rfl (uartWriteByte_seq write_lineControl ?_)
  refine uartWriteByte_seq (write_brLow hbit) (uartWriteByte_seq (write_brHigh hbit) ?_)
  refine uartWriteByte_seq write_lineControl (uartWriteByte_seq write_fifoControl ?_)
  refine Traced.returns_bind.mpr ⟨_, _, serialTest_returns hmode rfl, ?_⟩
  have hstate : ∀ divisor : BitVec 16, setModemControl serialNormalMode
      (setFifoControl serialFifos (setLineControl mode
        (setDivisorHigh (((divisor &&& 0xff00#16) >>> 8).setWidth 8)
          (setDivisorLow ((divisor &&& 0x00ff#16).setWidth 8) (setLineControl (1#8 <<< 7)
            ((device base echo latency).write (serialIntEnableReg base) 0#8 d))))))
      = configured d divisor mode := by
    intro divisor
    rw [show (device base echo latency).write (serialIntEnableReg base) 0#8 d
      = if d.dlab then d.setDivisorHigh 0#8 else d.setInterruptEnable 0#8 from
        write_add base 1#16 0#8 d]
    unfold configured
    cases d.dlab <;> rfl
  by_cases hecho : echo serialTestByte = serialTestByte
  · rw [if_pos hecho]
    exact Traced.returns_pure.mpr ⟨rfl, hstate _⟩
  · rw [if_neg hecho]
    exact Traced.returns_pure.mpr ⟨rfl, hstate _⟩

/-- The two bytes of the divisor. -/
theorem divisor_configured (d : Uart) (divisor : BitVec 16) (mode : BitVec 8) :
    (configured d divisor mode).divisor = divisor := by
  show ((divisor &&& 0xff00#16) >>> 8).setWidth 8 ++ (divisor &&& 0x00ff#16).setWidth 8 = divisor
  ext i hi
  rw [BitVec.getElem_append]
  interval_cases i <;> simp

/-- The divisor of a baud rate has 16 bits, except for the lowest. -/
theorem toNat_divisor_iff (hlow : 1 ≤ baudRate.toNat) :
    ((serialBaudRateMax / baudRate).setWidth 16 : BitVec 16).toNat = 115200 / baudRate.toNat
      ↔ 2 ≤ baudRate.toNat := by
  rw [BitVec.toNat_setWidth, BitVec.toNat_udiv, show serialBaudRateMax.toNat = 115200 from rfl]
  constructor
  · intro h
    by_contra hlt
    rw [show baudRate.toNat = 1 by omega] at h
    exact absurd h (by decide)
  · intro h
    refine Nat.mod_eq_of_lt ?_
    calc 115200 / baudRate.toNat ≤ 115200 / 2 := Nat.div_le_div_left h (by decide)
      _ < 2 ^ 16 := by decide

/-- A port that was given a divisor and a mode is set up exactly if they are the right ones,
and its interrupts were not hidden. -/
theorem setUp_configured_iff (hlow : 1 ≤ baudRate.toNat) (m : SerialMode) :
    (configured d ((serialBaudRateMax / baudRate).setWidth 16) m.value).SetUp baudRate m
      ↔ 2 ≤ baudRate.toNat ∧ m.parity = .none ∧ m.stopBits = .one ∧
        (d.dlab = true → d.interruptEnable = 0#8) := by
  have hinterrupts : (if d.dlab then d.interruptEnable else 0#8) = 0#8
      ↔ (d.dlab = true → d.interruptEnable = 0#8) := by
    cases d.dlab <;> simp
  constructor
  · rintro ⟨hformat, hdivisor, hinterrupt, -, -, -⟩
    rw [divisor_configured] at hdivisor
    obtain ⟨hparity, hstop⟩ := (decode_value_iff m).mp hformat
    exact ⟨(toNat_divisor_iff hlow).mp hdivisor, hparity, hstop, hinterrupts.mp hinterrupt⟩
  · rintro ⟨hrate, hparity, hstop, hinterrupt⟩
    refine ⟨(decode_value_iff m).mpr ⟨hparity, hstop⟩, ?_, hinterrupts.mpr hinterrupt, rfl,
      getLsbD_value m, show serialNormalMode.getLsbD 4 = false by decide⟩
    rw [divisor_configured]
    exact (toNat_divisor_iff hlow).mpr hrate

/-- **The two ways** the setup goes: a rate out of bounds is refused before anything is
written, and for any other one the registers are set and the loopback decides. -/
theorem serialInit_cases (base : BitVec 16) (echo : BitVec 8 → BitVec 8) (latency : ℕ → ℕ)
    (d : Uart) (baudRate : BitVec 32) (m : SerialMode) :
    ((baudRate.toNat = 0 ∨ 115200 < baudRate.toNat) ∧
      (serialInit (device base echo latency) base baudRate m.value).Returns d
        .errorBrOutOfBounds d) ∨
    ((1 ≤ baudRate.toNat ∧ baudRate.toNat ≤ 115200) ∧
      (serialInit (device base echo latency) base baudRate m.value).Returns d
        (if echo serialTestByte = serialTestByte then .ok else .loopbackFailed)
        (configured d ((serialBaudRateMax / baudRate).setWidth 16) m.value)) := by
  have hbounds : serialBaudRateMax < baudRate ∨ baudRate < 1#32
      ↔ baudRate.toNat = 0 ∨ 115200 < baudRate.toNat := by
    rw [BitVec.lt_def, BitVec.lt_def, show serialBaudRateMax.toNat = 115200 from rfl,
      show (1#32).toNat = 1 from rfl, Nat.lt_one_iff, or_comm]
  by_cases hrange : serialBaudRateMax < baudRate ∨ baudRate < 1#32
  · refine .inl ⟨hbounds.mp hrange, uartLog_seq ?_⟩
    rw [if_pos hrange]
    exact uartLog_seq (Traced.returns_pure.mpr ⟨rfl, rfl⟩)
  · have hin := mt hbounds.mpr hrange
    have hlow : 1 ≤ baudRate.toNat := by omega
    have hhigh : baudRate ≤ serialBaudRateMax := BitVec.not_lt.mp (not_or.mp hrange).1
    exact .inr ⟨⟨hlow, by omega⟩,
      serialInit_returns (BitVec.le_def.mpr hlow) hhigh (getLsbD_value m)⟩

/-- **A serial port is set up** as it was asked for exactly with one stop bit, no parity and
a rate from 2 to 115200 Bd, on a port whose loopback works and whose interrupts the first
write finds. A rate out of bounds is refused before anything is written, and in no case a
byte goes out on the line. -/
theorem serialInit_configures_iff (base : BitVec 16) (echo : BitVec 8 → BitVec 8)
    (latency : ℕ → ℕ) (d : Uart) (baudRate : BitVec 32) (m : SerialMode) :
    ∃ r d', (serialInit (device base echo latency) base baudRate m.value).Returns d r d' ∧
      (r = .errorBrOutOfBounds ↔ baudRate.toNat = 0 ∨ 115200 < baudRate.toNat) ∧
      (r = .errorBrOutOfBounds → d' = d) ∧ d'.sent = d.sent ∧
      (r = .ok ∧ d'.SetUp baudRate m ↔
        2 ≤ baudRate.toNat ∧ baudRate.toNat ≤ 115200 ∧ m.parity = .none ∧ m.stopBits = .one ∧
          echo serialTestByte = serialTestByte ∧ (d.dlab = true → d.interruptEnable = 0#8)) := by
  rcases serialInit_cases base echo latency d baudRate m with ⟨hout, hrun⟩ | ⟨⟨hlow, hhigh⟩, hrun⟩
  · refine ⟨.errorBrOutOfBounds, d, hrun, iff_of_true rfl hout, fun _ => rfl, rfl, ?_⟩
    exact iff_of_false (fun h => by cases h.1) fun ⟨h₁, h₂, _⟩ => by omega
  · refine ⟨_, _, hrun, iff_of_false ?_ (by omega), ?_, rfl, ?_⟩
    · split <;> decide
    · split <;> intro h <;> cases h
    · rw [setUp_configured_iff hlow m]
      by_cases hecho : echo serialTestByte = serialTestByte
      · rw [if_pos hecho]
        constructor
        · rintro ⟨-, hrate, hparity, hstop, hinterrupt⟩
          exact ⟨hrate, hhigh, hparity, hstop, hecho, hinterrupt⟩
        · rintro ⟨hrate, -, hparity, hstop, -, hinterrupt⟩
          exact ⟨rfl, hrate, hparity, hstop, hinterrupt⟩
      · rw [if_neg hecho]
        exact iff_of_false (fun h => by cases h.1) fun h => hecho h.2.2.2.2.1

end Setup
