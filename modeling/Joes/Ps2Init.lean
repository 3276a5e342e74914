import Joes.BitField
import Joes.Ps2Keyboard

/-!
# Initialising the controller

`ps2_init_controller` tests the controller and its two ports, enables the ports
that work, resets the devices behind them, asks them what they are, and
initialises the driver of a keyboard. It returns early on a timeout and where
nothing works, so it is cut here into one program for each part, each of which
goes on with the next.

The parts for the two ports are written twice in the source, and the second copy
was not adapted in three places: port 2 is tested with the command for port 1,
asked what it is when port 1 has a device, and a keyboard there is initialised as
one at port 1.
-/

section Init

variable {δ : Type} (dev : PortDevice δ) (fuel : ℕ)

/-- The union `ps2_config_byte`, whose fields have one bit each. -/
def setConfigBit (bit : ℕ) (v : BitVec 1) (configByte : BitVec 8) : BitVec 8 :=
  BitField.write configByte bit v

/-- The bit of `port_1_int_enabled`. -/
def port1IntEnabled : ℕ := 0

/-- The bit of `port_2_int_enabled`. -/
def port2IntEnabled : ℕ := 1

/-- The bit of `port_1_clk_enabled`. -/
def port1ClkEnabled : ℕ := 4

/-- The bit of `port_2_clk_enabled`. -/
def port2ClkEnabled : ℕ := 5

/-- The bit of `port_1_translation_enabled`. -/
def port1TranslationEnabled : ℕ := 6

/-- Writes the config byte back. -/
def ps2WriteConfigByte (configByte : BitVec 8) : Ps2Program δ Unit := do
  ps2SendCommand dev fuel ps2CmdWriteConfigByte
  let _ ← ps2RawSendByte dev fuel ps2PortCmd configByte
  pure ()

/-- The block of `ps2_init_controller` that identifies the device at a port and
initialises it if it is a keyboard. In both of its copies it is done if port 1
has a device, and the keyboard driver is given port 1. -/
def ps2IdentifyPort (port : BitVec 8) (deviceType : Ps2DeviceStatus → BitVec 32)
    (setDeviceType : BitVec 32 → Ps2DeviceStatus → Ps2DeviceStatus) : Ps2Program δ Unit := do
  let ports ← Traced.gets Ps2State.ports
  Traced.when ports.port1Populated do
    let (_, ty) ← ps2IdentifyDevice dev fuel port (deviceType ports)
    Traced.modify fun s => { s with ports := setDeviceType ty s.ports }
    Traced.when (ps2DeviceIsKeyboard ty) do
      let _ ← ps2KbdInit dev fuel ps2Port1
      pure ()

/-- The copy for port 1. -/
def ps2IdentifyPort1 : Ps2Program δ Unit :=
  ps2IdentifyPort dev fuel ps2Port1 Ps2DeviceStatus.deviceTypePort1
    fun ty ports => { ports with deviceTypePort1 := ty }

/-- The copy for port 2. -/
def ps2IdentifyPort2 : Ps2Program δ Unit :=
  ps2IdentifyPort dev fuel ps2Port2 Ps2DeviceStatus.deviceTypePort2
    fun ty ports => { ports with deviceTypePort2 := ty }

/-- The block of `ps2_init_controller` that resets the device at a port that
works. A failure is only logged. -/
def ps2ResetPort (port : BitVec 8) (works : Ps2State δ → Bool)
    (setPopulated : Ps2DeviceStatus → Ps2DeviceStatus) : Ps2Program δ Unit := do
  let portWorks ← Traced.gets works
  Traced.when portWorks do
    let _ ← ps2ResetDevice dev fuel port
    Traced.modify fun s => { s with ports := setPopulated s.ports }

/-- The copy for port 1. -/
def ps2ResetPort1 : Ps2Program δ Unit :=
  ps2ResetPort dev fuel ps2Port1 Ps2State.port1Works
    fun ports => { ports with port1Populated := true }

/-- The copy for port 2. -/
def ps2ResetPort2 : Ps2Program δ Unit :=
  ps2ResetPort dev fuel ps2Port2 Ps2State.port2Works
    fun ports => { ports with port2Populated := true }

/-- Enables the ports that work. -/
def ps2EnablePorts (configByte : BitVec 8) : Ps2Program δ Unit := do
  let port1Works ← Traced.gets Ps2State.port1Works
  let port2Works ← Traced.gets Ps2State.port2Works
  Traced.when port1Works (ps2SendCommand dev fuel ps2CmdEnablePort1)
  let configByte :=
    if port1Works then
      setConfigBit port1ClkEnabled 0#1 (setConfigBit port1IntEnabled 1#1 configByte)
    else configByte
  Traced.when port2Works (ps2SendCommand dev fuel ps2CmdEnablePort2)
  let configByte :=
    if port2Works then
      setConfigBit port2ClkEnabled 0#1 (setConfigBit port2IntEnabled 1#1 configByte)
    else configByte
  ps2WriteConfigByte dev fuel configByte

/-- `ps2_init_controller` from the end of the interface tests on. -/
def ps2InitDevices (configByte : BitVec 8) : Ps2Program δ Ps2ErrorCode := do
  let port1Works ← Traced.gets Ps2State.port1Works
  let port2Works ← Traced.gets Ps2State.port2Works
  if port1Works = false ∧ port2Works = false then pure .errorNoWorkingPorts
  else
    ps2EnablePorts dev fuel configByte
    ps2ResetPort1 dev fuel
    ps2ResetPort2 dev fuel
    ps2IdentifyPort1 dev fuel
    ps2IdentifyPort2 dev fuel
    Traced.modify fun s => { s with device := picEnableIrq dev 1#8 s.device }
    pure .ok

/-- The interface test of port 2, with the command for port 1 as in the source,
and what follows it. -/
def ps2TestPort2 (configByte : BitVec 8) : Ps2Program δ Ps2ErrorCode := do
  let port2Supported ← Traced.gets Ps2State.port2Supported
  if port2Supported then
    ps2SendCommand dev fuel ps2CmdTestPort1
    let (result, response) ← ps2ReceiveByte dev
    if result = .errorTimeout then pure .errorTimeout
    else
      Traced.when (response = ps2PortTestPassed)
        (Traced.modify fun s => { s with port2Works := true })
      ps2InitDevices dev fuel configByte
  else ps2InitDevices dev fuel configByte

/-- The interface test of port 1, and what follows it. -/
def ps2TestPort1 (configByte : BitVec 8) : Ps2Program δ Ps2ErrorCode := do
  ps2SendCommand dev fuel ps2CmdTestPort1
  let (result, response) ← ps2ReceiveByte dev
  if result = .errorTimeout then pure .errorTimeout
  else
    Traced.when (response = ps2PortTestPassed)
      (Traced.modify fun s => { s with port1Works := true })
    ps2TestPort2 dev fuel configByte

/-- Notes whether the second port exists, and makes sure it is disabled again. -/
def ps2SetPort2Supported (configByte : BitVec 8) (supported : Bool) : Ps2Program δ Unit :=
  if supported then do
    ps2SendCommand dev fuel ps2CmdDisablePort2
    ps2WriteConfigByte dev fuel configByte
    Traced.modify fun s => { s with port2Supported := true }
  else Traced.modify fun s => { s with port2Supported := false }

/-- The check whether the second port exists, and what follows it. -/
def ps2CheckPort2 (configByte : BitVec 8) : Ps2Program δ Ps2ErrorCode := do
  ps2WriteConfigByte dev fuel configByte
  ps2SendCommand dev fuel ps2CmdEnablePort2
  ps2SendCommand dev fuel ps2CmdReadConfigByte
  let (result, response) ← ps2ReceiveByte dev
  if result = .errorTimeout then pure .errorTimeout
  else
    ps2SetPort2Supported dev fuel configByte (response &&& 1#8 <<< 1 = 0#8)
    ps2TestPort1 dev fuel configByte

/-- The self test of the controller, and what follows it. -/
def ps2TestController (configByte : BitVec 8) : Ps2Program δ Ps2ErrorCode := do
  ps2WriteConfigByte dev fuel configByte
  ps2SendCommand dev fuel ps2CmdTestController
  let (result, response) ← ps2ReceiveByte dev
  if result = .errorTimeout then pure .errorTimeout
  else if response ≠ ps2ControllerTestPassed then pure .errorControllerTestFailed
  else ps2CheckPort2 dev fuel configByte

/-- `ps2_init_controller`. -/
def ps2InitController : Ps2Program δ Ps2ErrorCode := do
  ps2FlushOutputBuffer dev fuel
  ps2SendCommand dev fuel ps2CmdDisablePort1
  ps2SendCommand dev fuel ps2CmdDisablePort2
  ps2FlushOutputBuffer dev fuel
  ps2SendCommand dev fuel ps2CmdReadConfigByte
  let (result, configByte) ← ps2ReceiveByte dev
  if result = .errorTimeout then pure .errorTimeout
  else
    let configByte := setConfigBit port1IntEnabled 0#1 configByte
    let configByte := setConfigBit port2IntEnabled 0#1 configByte
    let configByte := setConfigBit port1ClkEnabled 0#1 configByte
    let configByte := setConfigBit port2ClkEnabled 1#1 configByte
    let configByte := setConfigBit port1TranslationEnabled 0#1 configByte
    ps2TestController dev fuel configByte

end Init
