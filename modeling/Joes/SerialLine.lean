import Joes.LoggingFormat
import Joes.Serial
import Joes.Uart

/-!
# What goes out on the serial line

`serial_send_byte` waits until the transmitter is empty and gives it a byte. The kernel
prints strings this way and, with `serial_log_write` for its backend, everything it logs.
How long the transmitter needs for a byte is a parameter of the device, and a byte that it
is given too early is lost.

From a port that `serial_init` has set up, every sequence of strings printed and messages
logged goes out on the line, byte by byte and in order (`serialRun_sent`).

The loop that waits ends because each read of the line status brings the transmitter
closer to being empty, so as many iterations as it is still busy for are enough
(`serialWaitToSend_returns`). Then the byte is written to the data port. It goes out on the
line if that port is the transmitter's, and not the divisor's, and the chip is not looped
back to itself (`Uart.Online`). `serial_init` leaves it so, and sending changes no
register.

How long a run may take depends on the bytes before, because the latency does. So it is said
of a call that there is a number of iterations from which on it returns
(`SerialCall.run_returns`), and a run takes a number that is enough for all of its calls
(`serialRun_returns`).
-/

/-! ## The driver -/

section Driver

variable {δ : Type} (dev : PortDevice δ) (fuel : ℕ)

/-- The loop of `serial_send_byte`. -/
def serialWaitToSend (port : BitVec 16) : ℕ → UartProgram δ Unit
  | 0 => Traced.diverge
  | fuel + 1 => do
    let status ← uartReadByte dev (serialLineStatusReg port)
    if status &&& 1#8 <<< 5 = 0#8 then serialWaitToSend port fuel else pure ()

/-- `serial_send_byte`. -/
def serialSendByte (port : BitVec 16) (data : BitVec 8) : UartProgram δ Unit := do
  serialWaitToSend dev port fuel
  uartWriteByte dev port data

/-- The loop of `serial_print`, with the iterations that are left. -/
def serialPrintLoop (port : BitVec 16) (data : CharBuffer) : ℕ → BitVec 64 → UartProgram δ Unit
  | 0, _ => pure ()
  | n + 1, i => do
    serialSendByte dev fuel port (data i)
    serialPrintLoop port data n (i + 1#64)

/-- `serial_print`. -/
def serialPrint (port : BitVec 16) (data : CharBuffer) : UartProgram δ Unit := do
  let len ← Traced.ofOption (strlen data)
  serialPrintLoop dev fuel port data len.toNat 0#64

/-- `serial_print_line`. -/
def serialPrintLine (port : BitVec 16) (data : CharBuffer) : UartProgram δ Unit := do
  serialPrint dev fuel port data
  serialSendByte dev fuel port (charByte '\n')

/-- `serial_log_write`, with the number that its context points to. -/
def serialLogWrite (context : BitVec 32) (c : BitVec 8) : UartProgram δ Unit :=
  serialSendByte dev fuel (context.setWidth 16) c

end Driver

/-! ## Calls that send text -/

/-- **A message** with the arguments of its format string. -/
structure LogMessage where
  level : LoggingLevel
  file : CString
  msg : CharBuffer
  items : List FormatItem
  holds : msg.Holds (items.flatMap FormatItem.bytes)

/-- **What the kernel sends** on a serial port. -/
inductive SerialCall where
  /-- A string is printed. -/
  | print (s : CString)
  /-- A string is printed, and a newline. -/
  | printLine (s : CString)
  /-- A message is logged, with the port for the backend. -/
  | log (m : LogMessage)

namespace SerialCall

/-- The bytes of a call: a string, or the line of a message. -/
def bytes (b : LoggingBackend) : SerialCall → List (BitVec 8)
  | print s => s.bytes
  | printLine s => s.bytes ++ [charByte '\n']
  | log m => b.line m.level m.file (m.items.flatMap FormatItem.written)

variable {δ : Type} (dev : PortDevice δ) (fuel : ℕ) (port : BitVec 16)
  (loggingFile formatString : CharBuffer)

/-- A call, on the backend and on the device. -/
def run : SerialCall → Traced (LoggingBackend × δ) LogCall Unit
  | print s => Traced.zoom Prod.snd (fun d x => (x.1, d)) id (serialPrint dev fuel port s.chars)
  | printLine s =>
    Traced.zoom Prod.snd (fun d x => (x.1, d)) id (serialPrintLine dev fuel port s.chars)
  | log m =>
    (loggingLogMsg loggingFile formatString m.level m.file.chars m.msg
      (m.items.flatMap FormatItem.args)).handle (serialLogWrite dev fuel (port.setWidth 32))

end SerialCall

/-! ## Bytes on the line -/

/-- **The port after it has sent** bytes. Its registers are as they were. -/
def Uart.send (cs : List (BitVec 8)) (busy : ℕ) (d : Uart) : Uart :=
  { d with sent := d.sent ++ cs, busy := busy }

/-- A byte for the data port is one for the line. -/
structure Uart.Online (d : Uart) : Prop where
  dlab_eq : d.dlab = false
  loopback_eq : d.loopback = false

section Line

open Uart

variable (base : BitVec 16) (echo : BitVec 8 → BitVec 8) (latency : ℕ → ℕ) {d : Uart} {fuel : ℕ}

theorem Uart.send_send (cs cs' : List (BitVec 8)) (busy busy' : ℕ) (d : Uart) :
    (d.send cs busy).send cs' busy' = d.send (cs ++ cs') busy' := by
  show { d with sent := d.sent ++ cs ++ cs', busy := busy' } = _
  rw [List.append_assoc]
  rfl

theorem Uart.Online.send (h : d.Online) (cs : List (BitVec 8)) (busy : ℕ) :
    (d.send cs busy).Online := ⟨h.dlab_eq, h.loopback_eq⟩

theorem Uart.lineStatus_empty_iff (d : Uart) : d.lineStatus &&& 1#8 <<< 5 = 0#8 ↔ d.busy ≠ 0 := by
  unfold lineStatus
  by_cases hreceived : d.received = [] <;> by_cases hbusy : d.busy = 0 <;>
    simp [hreceived, hbusy]

/-- **The loop** waits until the transmitter is empty. -/
theorem serialWaitToSend_returns (h : d.busy < fuel) :
    (serialWaitToSend (device base echo latency) base fuel).Returns d () (d.send [] 0) := by
  have hstatus : ∀ d : Uart, (device base echo latency).read (serialLineStatusReg base) d
      = (d.lineStatus, d.send [] (d.busy - 1)) := by
    intro d
    refine (read_add base 5#16 d).trans ?_
    show (d.lineStatus, { d with busy := d.busy - 1 }) = _
    rw [Uart.send, List.append_nil]
  induction fuel generalizing d with
  | zero => exact absurd h (Nat.not_lt_zero _)
  | succ fuel ih =>
    refine uartReadByte_seq (hstatus d) ?_
    by_cases hbusy : d.busy = 0
    · rw [if_neg (mt d.lineStatus_empty_iff.mp (not_not.mpr hbusy)), hbusy]
      exact Traced.returns_pure.mpr ⟨rfl, rfl⟩
    · rw [if_pos (d.lineStatus_empty_iff.mpr hbusy)]
      have hwait := ih (d := d.send [] (d.busy - 1)) (show d.busy - 1 < fuel by omega)
      rwa [Uart.send_send] at hwait

/-- **A byte is sent.** -/
theorem serialSendByte_returns (hfuel : d.busy < fuel) (h : d.Online) (v : BitVec 8) :
    (serialSendByte (device base echo latency) fuel base v).Returns d ()
      (d.send [v] (latency d.sent.length)) := by
  have hwait := serialWaitToSend_returns base echo latency hfuel
  have honline := h.send [] 0
  have hwrite : (device base echo latency).write base v (d.send [] 0)
      = d.send [v] (latency d.sent.length) := by
    rw [write_base_of_online honline.dlab_eq honline.loopback_eq]
    show { d with sent := d.sent ++ [] ++ [v], busy := latency (d.sent ++ []).length } = _
    rw [List.append_nil]
    rfl
  exact Traced.returns_bind.mpr ⟨(), _, hwait, Traced.returns_modify.mpr ⟨rfl, hwrite⟩⟩

/-- **Bytes are sent**, one after the other. -/
theorem each_serialSendByte_returns (h : d.Online) (cs : List (BitVec 8)) :
    ∃ busy fuel₀, ∀ fuel ≥ fuel₀,
      (Traced.each (serialSendByte (device base echo latency) fuel base) cs).Returns d ()
        (d.send cs busy) := by
  induction cs generalizing d with
  | nil =>
    refine ⟨d.busy, 0, fun fuel _ => Traced.returns_pure.mpr ⟨rfl, ?_⟩⟩
    rw [Uart.send, List.append_nil]
  | cons c cs ih =>
    obtain ⟨busy, fuel₀, hrest⟩ := ih (h.send [c] (latency d.sent.length))
    refine ⟨busy, max fuel₀ (d.busy + 1), fun fuel hfuel => ?_⟩
    have hfirst := serialSendByte_returns base echo latency
      (show d.busy < fuel by omega) h c
    have hrest := hrest fuel (by omega)
    rw [Uart.send_send] at hrest
    exact Traced.returns_bind.mpr ⟨(), _, hfirst, hrest⟩

theorem serialPrintLoop_eq {δ : Type} (dev : PortDevice δ) (port : BitVec 16)
    (data : CharBuffer) (n : ℕ) (i : BitVec 64) :
    serialPrintLoop dev fuel port data n i
      = Traced.each (serialSendByte dev fuel port) (data.chars n i) := by
  induction n generalizing i with
  | zero => rfl
  | succ n ih =>
    rw [serialPrintLoop, CharBuffer.chars, Traced.each, ih]

/-- A string is printed as its bytes are sent. -/
theorem serialPrint_returns {δ : Type} {dev : PortDevice δ} {port : BitVec 16} {d d' : δ}
    (s : CString)
    (h : (Traced.each (serialSendByte dev fuel port) s.bytes).Returns d () d') :
    (serialPrint dev fuel port s.chars).Returns d () d' := by
  obtain ⟨t, hrun⟩ := h
  refine ⟨t, ?_⟩
  rw [serialPrint, strlen_eq s.holds]
  refine Traced.Runs.some_seq ?_
  rw [serialPrintLoop_eq, s.holds.toNat_length, s.holds.chars_eq]
  exact hrun

/-- A program on the device is one on the device and the backend. -/
theorem zoom_returns {δ β : Type} {m : UartProgram δ Unit} {b : β} {d d' : δ}
    (h : m.Returns d () d') :
    (m.zoom Prod.snd (fun d (x : β × δ) => (x.1, d)) id).Returns (b, d) () (b, d') := by
  obtain ⟨t, hrun⟩ := h
  exact ⟨t, Traced.runs_zoom.mpr ⟨t, d', hrun, rfl, List.map_id t⟩⟩

/-- **A call** sends its bytes. -/
theorem SerialCall.run_returns (h : d.Online) (loggingFile formatString : CharBuffer)
    (b : LoggingBackend) (c : SerialCall) :
    ∃ busy fuel₀, ∀ fuel ≥ fuel₀,
      (c.run (device base echo latency) fuel base loggingFile formatString).Returns (b, d) ()
        (b, d.send (c.bytes b) busy) := by
  have hsends := fun cs => each_serialSendByte_returns base echo latency h cs
  cases c with
  | print s =>
    obtain ⟨busy, fuel₀, hsend⟩ := hsends s.bytes
    exact ⟨busy, fuel₀, fun fuel hfuel => zoom_returns (serialPrint_returns s (hsend fuel hfuel))⟩
  | printLine s =>
    obtain ⟨busy, fuel₀, hsend⟩ := hsends s.bytes
    refine ⟨latency (d.sent ++ s.bytes).length, max fuel₀ (busy + 1), fun fuel hfuel => ?_⟩
    have hlast := serialSendByte_returns base echo latency (d := d.send s.bytes busy)
      (show busy < fuel by omega) (h.send s.bytes busy) (charByte '\n')
    rw [Uart.send_send] at hlast
    have hprint := serialPrint_returns s (hsend fuel (by omega))
    exact zoom_returns (Traced.returns_bind.mpr ⟨(), _, hprint, hlast⟩)
  | log m =>
    obtain ⟨busy, fuel₀, hsend⟩ := hsends (b.line m.level m.file (m.items.flatMap _))
    refine ⟨busy, fuel₀, fun fuel hfuel => ?_⟩
    obtain ⟨t, hrun⟩ := hsend fuel hfuel
    have hlog := loggingLogMsg_runs loggingFile formatString m.file b m.level [] m.holds
    rw [List.append_nil] at hlog
    have hport : (base.setWidth 32).setWidth 16 = base := by simp
    refine ⟨t, hlog.handle ?_⟩
    unfold serialLogWrite
    rw [hport]
    exact hrun

/-- **Every run** sends the bytes of its calls, in order, and the registers stay. -/
theorem serialRun_returns (h : d.Online) (loggingFile formatString : CharBuffer)
    (b : LoggingBackend) (calls : List SerialCall) :
    ∃ busy fuel₀, ∀ fuel ≥ fuel₀,
      (Traced.each (SerialCall.run (device base echo latency) fuel base loggingFile formatString)
        calls).Returns (b, d) () (b, d.send (calls.flatMap (SerialCall.bytes b)) busy) := by
  induction calls generalizing d with
  | nil =>
    refine ⟨d.busy, 0, fun fuel _ => Traced.returns_pure.mpr ⟨rfl, ?_⟩⟩
    rw [Uart.send, List.flatMap_nil, List.append_nil]
  | cons c calls ih =>
    obtain ⟨busy, fuel₁, hcall⟩ := c.run_returns base echo latency h loggingFile formatString b
    obtain ⟨busy', fuel₂, hrest⟩ := ih (h.send (c.bytes b) busy)
    refine ⟨busy', max fuel₁ fuel₂, fun fuel hfuel => ?_⟩
    have hrest := hrest fuel (by omega)
    rw [Uart.send_send] at hrest
    exact Traced.returns_bind.mpr ⟨(), _, hcall fuel (by omega), hrest⟩

end Line

open Uart in
/-- **Everything goes out on the line.** Once `serial_init` has returned without an error,
every sequence of strings printed and messages logged is sent byte by byte and in order,
however long the transmitter takes for a byte, and the port stays as it was set up. -/
theorem serialRun_sent (base : BitVec 16) (echo : BitVec 8 → BitVec 8) (latency : ℕ → ℕ)
    (d : Uart) (baudRate : BitVec 32) (m : SerialMode) (loggingFile formatString : CharBuffer)
    (b : LoggingBackend) (calls : List SerialCall) :
    ∃ r d', (serialInit (device base echo latency) base baudRate m.value).Returns d r d' ∧
      (r = .ok ↔ 1 ≤ baudRate.toNat ∧ baudRate.toNat ≤ 115200 ∧
        echo serialTestByte = serialTestByte) ∧
      (r = .ok → ∃ d'' fuel₀,
        (∀ fuel ≥ fuel₀,
          (Traced.each
            (SerialCall.run (device base echo latency) fuel base loggingFile formatString)
            calls).Returns (b, d') () (b, d'')) ∧
        d''.sent = d.sent ++ calls.flatMap (SerialCall.bytes b) ∧
        (d''.SetUp baudRate m ↔ d'.SetUp baudRate m)) := by
  rcases serialInit_cases base echo latency d baudRate m with ⟨hout, hinit⟩ | ⟨hrange, hinit⟩
  · have hnot : SerialErrorCode.errorBrOutOfBounds ≠ .ok := by decide
    exact ⟨_, _, hinit, iff_of_false hnot fun h => by omega, fun h => (hnot h).elim⟩
  · have hok : (if echo serialTestByte = serialTestByte then SerialErrorCode.ok
        else .loopbackFailed) = .ok ↔ echo serialTestByte = serialTestByte := by
      by_cases hecho : echo serialTestByte = serialTestByte <;> simp [hecho]
    refine ⟨_, _, hinit, ?_, fun _ => ?_⟩
    · rw [hok, and_iff_right hrange.1, and_iff_right hrange.2]
    have honline : (configured d ((serialBaudRateMax / baudRate).setWidth 16) m.value).Online :=
      ⟨getLsbD_value m, show serialNormalMode.getLsbD 4 = false by decide⟩
    obtain ⟨busy, fuel₀, hrun⟩ := serialRun_returns base echo latency honline loggingFile
      formatString b calls
    refine ⟨_, fuel₀, hrun, rfl, fun h => ?_, fun h => ?_⟩
    · exact ⟨h.format_eq, h.divisor_eq, h.interruptEnable_eq, h.received_eq, h.dlab_eq,
        h.loopback_eq⟩
    · exact ⟨h.format_eq, h.divisor_eq, h.interruptEnable_eq, h.received_eq, h.dlab_eq,
        h.loopback_eq⟩
