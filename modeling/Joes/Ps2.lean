import Joes.Pic
import Joes.Ps2Scancode
import Joes.TracedProgram

/-!
# The PS/2 controller

`ps2.c` talks to the PS/2 controller through two ports, and through it to the
devices behind the controller's own two ports. It waits for the controller to
take or to have a byte, for a bounded time where a device answers and for as
long as it takes where a command is sent. The functions here are programs on the
driver's variables and on any device behind the I/O ports. Their `fuel` bounds
the unbounded waits, so a program that returns with some fuel is one that
returns.

Their trace is the dialogue: every byte written, every byte received, and the
timeouts, with the outcome of the operations the dialogue consists of.
-/

/-- `ps2_error_codes_t`. -/
inductive Ps2ErrorCode where
  | ok | errorControllerTestFailed | errorPortTestFailed | errorNoWorkingPorts
  | errorDeviceResetFailed | errorTimeout | errorNoAck
  deriving DecidableEq, Repr

/-- `struct ps2_device_status`. -/
structure Ps2DeviceStatus where
  port1Populated : Bool
  deviceTypePort1 : BitVec 32
  port2Populated : Bool
  deviceTypePort2 : BitVec 32
  deriving DecidableEq, Repr

/-- The variables of the two drivers, with the device behind the I/O ports. -/
structure Ps2State (δ : Type) where
  device : δ
  port2Supported : Bool
  port1Works : Bool
  port2Works : Bool
  ports : Ps2DeviceStatus
  kbd : Ps2Kbd

/-- The initial values of the variables. -/
def Ps2State.initial {δ : Type} (d : δ) : Ps2State δ :=
  ⟨d, false, false, false, ⟨false, 0#32, false, 0#32⟩, .initial⟩

/-- **What happens** while the drivers run. -/
inductive Ps2Event where
  /-- A command is written to the controller. -/
  | command (command : BitVec 8)
  /-- A byte is written for a port. -/
  | sent (port data : BitVec 8)
  /-- The controller did not take a byte for a port in time. -/
  | sendTimeout (port data : BitVec 8)
  /-- A byte is read from the controller. -/
  | received (data : BitVec 8)
  /-- The controller had no byte in time. -/
  | receiveTimeout
  /-- `ps2_reset_device` returns. -/
  | reset (port : BitVec 8) (result : Ps2ErrorCode)
  /-- `ps2_identify_device` has determined the type of a device. -/
  | identified (port : BitVec 8) (deviceType : BitVec 32)
  /-- `ps2_kbd_init` is called. -/
  | kbdInit (port : BitVec 8)
  /-- `kbd_append_key_event_to_buffer` is called. -/
  | appended (keyEvent : KeyEvent)
  deriving DecidableEq, Repr

/-- The byte an event receives. -/
def Ps2Event.receivedByte : Ps2Event → Option (BitVec 8)
  | received v => some v
  | _ => none

/-- The programs of the drivers. -/
abbrev Ps2Program (δ α : Type) := Traced (Ps2State δ) Ps2Event α

/-! ## Constants -/

/-- `PS2_DATA`. -/
def ps2Data : BitVec 16 := 0x60#16

/-- `PS2_COMMAND`. -/
def ps2Command : BitVec 16 := 0x64#16

/-- `PS2_STATUS`. -/
def ps2Status : BitVec 16 := 0x64#16

/-- `PS2_PORT_CMD`. -/
def ps2PortCmd : BitVec 8 := 0#8

/-- `PS2_PORT_1`. -/
def ps2Port1 : BitVec 8 := 1#8

/-- `PS2_PORT_2`. -/
def ps2Port2 : BitVec 8 := 2#8

/-- `PS2_TIMEOUT`. -/
def ps2Timeout : ℕ := 100000

/-- `PS2_MAX_RESENDS`. -/
def ps2MaxResends : ℕ := 5

/-- `PS2_KBD_AT`. -/
def ps2KbdAt : BitVec 32 := 0x01ffff#32

/-- `PS2_KBD_MF2_1`. -/
def ps2KbdMf2_1 : BitVec 32 := 0xab83#32

/-- `PS2_KBD_MF2_2`. -/
def ps2KbdMf2_2 : BitVec 32 := 0xabc1#32

/-- `PS2_CMD_READ_CONFIG_BYTE`. -/
def ps2CmdReadConfigByte : BitVec 8 := 0x20#8

/-- `PS2_CMD_WRITE_CONFIG_BYTE`. -/
def ps2CmdWriteConfigByte : BitVec 8 := 0x60#8

/-- `PS2_CMD_DISABLE_PORT_2`. -/
def ps2CmdDisablePort2 : BitVec 8 := 0xa7#8

/-- `PS2_CMD_ENABLE_PORT_2`. -/
def ps2CmdEnablePort2 : BitVec 8 := 0xa8#8

/-- `PS2_CMD_TEST_PORT_2`. -/
def ps2CmdTestPort2 : BitVec 8 := 0xa9#8

/-- `PS2_CMD_TEST_CONTROLLER`. -/
def ps2CmdTestController : BitVec 8 := 0xaa#8

/-- `PS2_CMD_TEST_PORT_1`. -/
def ps2CmdTestPort1 : BitVec 8 := 0xab#8

/-- `PS2_CMD_DISABLE_PORT_1`. -/
def ps2CmdDisablePort1 : BitVec 8 := 0xad#8

/-- `PS2_CMD_ENABLE_PORT_1`. -/
def ps2CmdEnablePort1 : BitVec 8 := 0xae#8

/-- `PS2_CMD_SEND_NEXT_BYTE_TO_PORT_2`. -/
def ps2CmdSendNextByteToPort2 : BitVec 8 := 0xd4#8

/-- `PS2_DEV_CMD_ECHO`. -/
def ps2DevCmdEcho : BitVec 8 := 0xee#8

/-- `PS2_DEV_CMD_IDENTIFY`. -/
def ps2DevCmdIdentify : BitVec 8 := 0xf2#8

/-- `PS2_DEV_CMD_DISABLE_SCANNING`. -/
def ps2DevCmdDisableScanning : BitVec 8 := 0xf5#8

/-- `PS2_DEV_CMD_RESET`. -/
def ps2DevCmdReset : BitVec 8 := 0xff#8

/-- `PS2_DEV_ACK`. -/
def ps2DevAck : BitVec 8 := 0xfa#8

/-- `PS2_DEV_RESEND`. -/
def ps2DevResend : BitVec 8 := 0xfe#8

/-- `PS2_DEV_SELFTEST_PASSED`. -/
def ps2DevSelftestPassed : BitVec 8 := 0xaa#8

/-- `PS2_DEV_ECHO`. -/
def ps2DevEcho : BitVec 8 := 0xee#8

/-- `PS2_PORT_TEST_PASSED`. -/
def ps2PortTestPassed : BitVec 8 := 0x00#8

/-- `PS2_CONTROLLER_TEST_PASSED`. -/
def ps2ControllerTestPassed : BitVec 8 := 0x55#8

/-! ## Sending and receiving -/

section Ps2

variable {δ : Type} (dev : PortDevice δ) (fuel : ℕ)

/-- `port_read_byte`. -/
def portReadByte (port : BitVec 16) : Ps2Program δ (BitVec 8) :=
  Traced.modifyGet fun s =>
    let r := dev.read port s.device
    (r.1, { s with device := r.2 })

/-- `port_write_byte`. -/
def portWriteByte (port : BitVec 16) (data : BitVec 8) : Ps2Program δ Unit :=
  Traced.modify fun s => { s with device := dev.write port data s.device }

/-- `ps2_output_buffer_full`. -/
def ps2OutputBufferFull : Ps2Program δ Bool := do
  let status ← portReadByte dev ps2Status
  pure (status &&& 1#8 != 0#8)

/-- `ps2_input_buffer_full`. -/
def ps2InputBufferFull : Ps2Program δ Bool := do
  let status ← portReadByte dev ps2Status
  pure (status &&& 1#8 <<< 1 != 0#8)

/-- `ps2_device_is_keyboard`. -/
def ps2DeviceIsKeyboard (deviceType : BitVec 32) : Bool :=
  deviceType = ps2KbdAt || deviceType = ps2KbdMf2_1 || deviceType = ps2KbdMf2_2

/-- The loop of `ps2_send_command` that waits for the controller. -/
def ps2WaitInputBuffer : ℕ → Ps2Program δ Unit
  | 0 => Traced.diverge
  | fuel + 1 => do
    if ← ps2InputBufferFull dev then ps2WaitInputBuffer fuel else pure ()

/-- `ps2_send_command`. -/
def ps2SendCommand (command : BitVec 8) : Ps2Program δ Unit := do
  ps2WaitInputBuffer dev fuel
  portWriteByte dev ps2Command command
  Traced.emit (.command command)

/-- `ps2_flush_output_buffer`. -/
def ps2FlushOutputBuffer : ℕ → Ps2Program δ Unit
  | 0 => Traced.diverge
  | fuel + 1 => do
    if ← ps2OutputBufferFull dev then
      let _ ← portReadByte dev ps2Data
      ps2FlushOutputBuffer fuel
    else pure ()

/-- The loop of `ps2_raw_send_byte` that waits for the controller, with the
iterations that are left. -/
def ps2WaitToSend : ℕ → Ps2Program δ Ps2ErrorCode
  | 0 => pure .errorTimeout
  | timeout + 1 => do
    if ← ps2InputBufferFull dev then ps2WaitToSend timeout else pure .ok

/-- `ps2_raw_send_byte`. -/
def ps2RawSendByte (port data : BitVec 8) : Ps2Program δ Ps2ErrorCode := do
  Traced.when (port = ps2Port2) (ps2SendCommand dev fuel ps2CmdSendNextByteToPort2)
  let result ← ps2WaitToSend dev ps2Timeout
  if result = .ok then
    portWriteByte dev ps2Data data
    Traced.emit (.sent port data)
    pure .ok
  else
    Traced.emit (.sendTimeout port data)
    pure .errorTimeout

/-- The loop of `ps2_receive_byte` that waits for the controller, with the
iterations that are left. -/
def ps2WaitToReceive : ℕ → Ps2Program δ Ps2ErrorCode
  | 0 => pure .errorTimeout
  | timeout + 1 => do
    if ← ps2OutputBufferFull dev then pure .ok else ps2WaitToReceive timeout

/-- `ps2_receive_byte`, with what it stores in `*dest` as a second result. -/
def ps2ReceiveByte : Ps2Program δ (Ps2ErrorCode × BitVec 8) := do
  let result ← ps2WaitToReceive dev ps2Timeout
  if result = .ok then
    let data ← portReadByte dev ps2Data
    Traced.emit (.received data)
    pure (.ok, data)
  else
    Traced.emit .receiveTimeout
    pure (.errorTimeout, 0#8)

/-- The loop of `ps2_send_byte`, with the attempts that are left. -/
def ps2SendByteAttempts (port data : BitVec 8) : ℕ → Ps2Program δ Ps2ErrorCode
  | 0 => pure .errorNoAck
  | attempts + 1 => do
    let result ← ps2RawSendByte dev fuel port data
    if result ≠ .ok then ps2SendByteAttempts port data attempts
    else
      let (result, response) ← ps2ReceiveByte dev
      if result ≠ .ok then ps2SendByteAttempts port data attempts
      else if response = ps2DevResend then ps2SendByteAttempts port data attempts
      else if response = ps2DevAck then pure .ok
      else if response = ps2DevEcho ∧ data = ps2DevCmdEcho then pure .ok
      else ps2SendByteAttempts port data attempts

/-- `ps2_send_byte`. -/
def ps2SendByte (port data : BitVec 8) : Ps2Program δ Ps2ErrorCode :=
  ps2SendByteAttempts dev fuel port data ps2MaxResends

/-! ## Devices -/

/-- The exchange of `ps2_reset_device`, up to what it returns. -/
def ps2ResetExchange (port : BitVec 8) : Ps2Program δ Ps2ErrorCode := do
  let result ← ps2SendByte dev fuel port ps2DevCmdReset
  if result = .errorNoAck then pure .errorNoAck
  else
    let (result, response) ← ps2ReceiveByte dev
    if result = .errorTimeout then pure .errorTimeout
    else if response = ps2DevSelftestPassed then pure .ok
    else pure .errorDeviceResetFailed

/-- `ps2_reset_device`. -/
def ps2ResetDevice (port : BitVec 8) : Ps2Program δ Ps2ErrorCode := do
  let result ← ps2ResetExchange dev fuel port
  Traced.emit (.reset port result)
  pure result

/-- The type `ps2_identify_device` reads off the answer to an identify command:
of up to two bytes, and that of an AT keyboard if there is none. -/
def ps2ReceiveDeviceType : Ps2Program δ (BitVec 32) := do
  let (result, response) ← ps2ReceiveByte dev
  if result = .ok then
    let deviceType := response.setWidth 32 <<< 8
    let (result, response) ← ps2ReceiveByte dev
    if result = .ok then pure (deviceType ||| response.setWidth 32) else pure deviceType
  else pure ps2KbdAt

/-- `ps2_identify_device` from the identify command on. The config byte read before
is restored only if the device answers. -/
def ps2RequestDeviceType (port : BitVec 8) (deviceType : BitVec 32) (config : BitVec 8) :
    Ps2Program δ (Ps2ErrorCode × BitVec 32) := do
  let result ← ps2SendByte dev fuel port ps2DevCmdIdentify
  if result = .errorNoAck then pure (.errorNoAck, deviceType)
  else
    let deviceType ← ps2ReceiveDeviceType dev
    Traced.emit (.identified port deviceType)
    ps2SendCommand dev fuel ps2CmdWriteConfigByte
    let _ ← ps2RawSendByte dev fuel ps2PortCmd config
    pure (.ok, deviceType)

/-- `ps2_identify_device`, with `*device_type` as an argument and a second
result. -/
def ps2IdentifyDevice (port : BitVec 8) (deviceType : BitVec 32) :
    Ps2Program δ (Ps2ErrorCode × BitVec 32) := do
  ps2FlushOutputBuffer dev fuel
  let result ← ps2SendByte dev fuel port ps2DevCmdDisableScanning
  if result = .errorNoAck then pure (.errorNoAck, deviceType)
  else
    ps2SendCommand dev fuel ps2CmdReadConfigByte
    let (result, config) ← ps2ReceiveByte dev
    if result = .errorTimeout then pure (.errorTimeout, deviceType)
    else
      ps2SendCommand dev fuel ps2CmdWriteConfigByte
      let _ ← ps2RawSendByte dev fuel ps2PortCmd (config &&& ~~~(1#8 <<< 6))
      ps2RequestDeviceType dev fuel port deviceType config

/-! ## What the operations do -/

/-- The variables alone. -/
def Ps2State.variables (s : Ps2State δ) : Ps2State Unit := { s with device := () }

variable {dev fuel} {s s' : Ps2State δ} {t : List Ps2Event} {port data c : BitVec 8}

theorem portReadByte_confined (p : BitVec 16) {E : Ps2Event → Prop} :
    (portReadByte dev p).Confined Ps2State.variables E := Traced.Confined.modifyGet fun _ => rfl

theorem portReadByte_total (p : BitVec 16) : (portReadByte dev p).Total := Traced.Total.modifyGet

theorem portWriteByte_confined (p : BitVec 16) {E : Ps2Event → Prop} :
    (portWriteByte dev p data).Confined Ps2State.variables E := Traced.Confined.modify fun _ => rfl

theorem ps2WaitInputBuffer_confined {E : Ps2Event → Prop} :
    (ps2WaitInputBuffer dev fuel).Confined Ps2State.variables E := by
  induction fuel with
  | zero => exact .diverge
  | succ fuel ih =>
    exact .bind (.bind (portReadByte_confined _) fun _ => .pure) fun _ => .ite ih .pure

theorem ps2FlushOutputBuffer_confined {E : Ps2Event → Prop} :
    (ps2FlushOutputBuffer dev fuel).Confined Ps2State.variables E := by
  induction fuel with
  | zero => exact .diverge
  | succ fuel ih =>
    exact .bind (.bind (portReadByte_confined _) fun _ => .pure) fun _ =>
      .ite (.bind (portReadByte_confined _) fun _ => ih) .pure

theorem ps2WaitToSend_confined (n : ℕ) {E : Ps2Event → Prop} :
    (ps2WaitToSend dev n).Confined Ps2State.variables E := by
  induction n with
  | zero => exact .pure
  | succ n ih => exact .bind (.bind (portReadByte_confined _) fun _ => .pure) fun _ => .ite ih .pure

theorem ps2WaitToReceive_confined (n : ℕ) {E : Ps2Event → Prop} :
    (ps2WaitToReceive dev n).Confined Ps2State.variables E := by
  induction n with
  | zero => exact .pure
  | succ n ih => exact .bind (.bind (portReadByte_confined _) fun _ => .pure) fun _ => .ite .pure ih

theorem ps2WaitToReceive_total (n : ℕ) : (ps2WaitToReceive dev n).Total := by
  induction n with
  | zero => exact .pure
  | succ n ih => exact .bind (.bind (portReadByte_total _) fun _ => .pure) fun _ => .ite .pure ih

/-- **Sending a command** writes it. -/
theorem ps2SendCommand_runs {u : Unit} (h : (ps2SendCommand dev fuel c).Runs s t u s') :
    t = [.command c] ∧ s'.variables = s.variables := by
  rw [ps2SendCommand, Traced.runs_bind] at h
  obtain ⟨_, s₁, t₁, _, hwait, h, rfl⟩ := h
  rw [Traced.runs_bind] at h
  obtain ⟨_, s₂, t₂, _, hwrite, hemit, rfl⟩ := h
  obtain ⟨rfl, hs₁⟩ := hwait.of_silent ps2WaitInputBuffer_confined
  obtain ⟨rfl, hs₂⟩ := hwrite.of_silent (portWriteByte_confined _)
  obtain ⟨rfl, rfl⟩ := Traced.runs_emit.mp hemit
  exact ⟨rfl, hs₂.trans hs₁⟩

/-- The command that announces a byte for the second port. -/
def ps2Announcement (port : BitVec 8) : List Ps2Event :=
  if port = ps2Port2 then [.command ps2CmdSendNextByteToPort2] else []

/-- **Sending a byte** writes it, or times out. -/
theorem ps2RawSendByte_runs {r : Ps2ErrorCode}
    (h : (ps2RawSendByte dev fuel port data).Runs s t r s') :
    s'.variables = s.variables ∧
      (r = .ok ∧ t = ps2Announcement port ++ [.sent port data] ∨
        r = .errorTimeout ∧ t = ps2Announcement port ++ [.sendTimeout port data]) := by
  rw [ps2RawSendByte, Traced.runs_bind] at h
  obtain ⟨_, s₁, t₁, _, hannounce, h, rfl⟩ := h
  obtain ⟨rfl, hs₁⟩ : t₁ = ps2Announcement port ∧ s₁.variables = s.variables := by
    unfold ps2Announcement
    rcases hannounce.when with ⟨hport, hsend⟩ | ⟨hport, rfl, rfl⟩
    · rw [if_pos hport]
      exact ps2SendCommand_runs hsend
    · rw [if_neg hport]
      exact ⟨rfl, rfl⟩
  rw [Traced.runs_bind] at h
  obtain ⟨result, s₂, t₂, _, hwait, h, rfl⟩ := h
  obtain ⟨rfl, hs₂⟩ := hwait.of_silent (ps2WaitToSend_confined _)
  split at h
  · rw [Traced.runs_bind] at h
    obtain ⟨_, s₃, t₃, _, hwrite, h, rfl⟩ := h
    obtain ⟨rfl, hs₃⟩ := hwrite.of_silent (portWriteByte_confined _)
    rw [Traced.runs_bind] at h
    obtain ⟨_, s₄, t₄, _, hemit, h, rfl⟩ := h
    obtain ⟨rfl, rfl⟩ := Traced.runs_emit.mp hemit
    obtain ⟨rfl, rfl, rfl⟩ := Traced.runs_pure.mp h
    exact ⟨hs₃.trans (hs₂.trans hs₁), .inl ⟨rfl, rfl⟩⟩
  · rw [Traced.runs_bind] at h
    obtain ⟨_, s₄, t₄, _, hemit, h, rfl⟩ := h
    obtain ⟨rfl, rfl⟩ := Traced.runs_emit.mp hemit
    obtain ⟨rfl, rfl, rfl⟩ := Traced.runs_pure.mp h
    exact ⟨hs₂.trans hs₁, .inr ⟨rfl, rfl⟩⟩

/-- **Receiving a byte** reads it, or times out. -/
theorem ps2ReceiveByte_runs {r : Ps2ErrorCode × BitVec 8}
    (h : (ps2ReceiveByte dev).Runs s t r s') :
    s'.variables = s.variables ∧
      ((∃ v, r = (.ok, v) ∧ t = [.received v]) ∨
        r = (.errorTimeout, 0#8) ∧ t = [.receiveTimeout]) := by
  rw [ps2ReceiveByte, Traced.runs_bind] at h
  obtain ⟨result, s₁, t₁, _, hwait, h, rfl⟩ := h
  obtain ⟨rfl, hs₁⟩ := hwait.of_silent (ps2WaitToReceive_confined _)
  split at h
  · rw [Traced.runs_bind] at h
    obtain ⟨v, s₂, t₂, _, hread, h, rfl⟩ := h
    obtain ⟨rfl, hs₂⟩ := hread.of_silent (portReadByte_confined _)
    rw [Traced.runs_bind] at h
    obtain ⟨_, s₃, t₃, _, hemit, h, rfl⟩ := h
    obtain ⟨rfl, rfl⟩ := Traced.runs_emit.mp hemit
    obtain ⟨rfl, rfl, rfl⟩ := Traced.runs_pure.mp h
    exact ⟨hs₂.trans hs₁, .inl ⟨v, rfl, rfl⟩⟩
  · rw [Traced.runs_bind] at h
    obtain ⟨_, s₃, t₃, _, hemit, h, rfl⟩ := h
    obtain ⟨rfl, rfl⟩ := Traced.runs_emit.mp hemit
    obtain ⟨rfl, rfl, rfl⟩ := Traced.runs_pure.mp h
    exact ⟨hs₁, .inr ⟨rfl, rfl⟩⟩

theorem ps2ReceiveByte_total : (ps2ReceiveByte dev).Total :=
  .bind (ps2WaitToReceive_total _) fun _ => .ite
    (.bind (portReadByte_total _) fun _ => .bind .emit fun _ => .pure) (.bind .emit fun _ => .pure)

/-- The events of sending a byte to a device. -/
def Ps2Event.OfSend (port data : BitVec 8) : Ps2Event → Prop
  | .command c => c = ps2CmdSendNextByteToPort2
  | .sent p d | .sendTimeout p d => p = port ∧ d = data
  | .received _ | .receiveTimeout => True
  | _ => False

theorem ps2SendCommand_confined {E : Ps2Event → Prop} (h : E (.command c)) :
    (ps2SendCommand dev fuel c).Confined Ps2State.variables E := by
  intro s t _ s' hrun
  obtain ⟨rfl, hs⟩ := ps2SendCommand_runs hrun
  exact ⟨hs, List.forall_mem_singleton.mpr h⟩

theorem ps2RawSendByte_confined :
    (ps2RawSendByte dev fuel port data).Confined Ps2State.variables
      (Ps2Event.OfSend port data) := by
  intro s t r s' hrun
  obtain ⟨hs, hsent⟩ := ps2RawSendByte_runs hrun
  have hannounce : ∀ e ∈ ps2Announcement port, e.OfSend port data := by
    unfold ps2Announcement
    split
    · exact List.forall_mem_singleton.mpr rfl
    · exact List.forall_mem_nil _
  refine ⟨hs, ?_⟩
  obtain ⟨-, rfl⟩ | ⟨-, rfl⟩ := hsent
  · exact List.forall_mem_append.mpr ⟨hannounce, List.forall_mem_singleton.mpr ⟨rfl, rfl⟩⟩
  · exact List.forall_mem_append.mpr ⟨hannounce, List.forall_mem_singleton.mpr ⟨rfl, rfl⟩⟩

theorem ps2ReceiveByte_confined {E : Ps2Event → Prop} (h : ∀ v, E (.received v))
    (h' : E .receiveTimeout) : (ps2ReceiveByte dev).Confined Ps2State.variables E := by
  intro s t r s' hrun
  obtain ⟨hs, ⟨v, -, rfl⟩ | ⟨-, rfl⟩⟩ := ps2ReceiveByte_runs hrun
  · exact ⟨hs, List.forall_mem_singleton.mpr (h v)⟩
  · exact ⟨hs, List.forall_mem_singleton.mpr h'⟩

/-- **Sending a byte to a device** changes no variable, and its dialogue is about
this byte. -/
theorem ps2SendByte_confined :
    (ps2SendByte dev fuel port data).Confined Ps2State.variables (Ps2Event.OfSend port data) := by
  unfold ps2SendByte
  induction ps2MaxResends with
  | zero => exact .pure
  | succ attempts ih =>
    refine .bind ps2RawSendByte_confined fun _ => .ite ih ?_
    refine .bind (ps2ReceiveByte_confined (fun _ => trivial) trivial) fun r => ?_
    exact .ite ih (.ite ih (.ite .pure (.ite .pure ih)))

end Ps2
