import Joes.Ps2

/-!
# The keyboard driver

`ps2_kbd_init` puts a keyboard into scan code set 1 and the driver into its
normal state, and `ps2_kbd_irq_callback` takes the byte each interrupt of the
keyboard is for.

The keyboard may ask to be sent a byte again, so how much a run of the
initialization sends depends on the device. What all its runs have in common is
said without regard to that: its sends and receives do not touch the variables of
either driver, and their events are those of a few commands at one port
(`Ps2Event.OfKbdInit`). That goes through sequences and branches, and through the
tries by induction on how many are left (`ps2KbdSetScancodeSet_confined`). Beside
them the driver assigns its port at the start, and its state once the scan code set is
accepted. So a run has one of three outcomes: it is refused, it fails and leaves the
driver uninitialized, or the driver is ready (`ps2KbdInit_runs`).

The interrupt receives one byte and gives it to `ps2KbdReceive`, a function of that
byte and of the variables of the driver. A run of it is this function, with the key
event that is appended as its only other event (`ps2KbdIrqCallback_runs`).
-/

/-- `ps2_kbd_error_codes_t`. -/
inductive Ps2KbdErrorCode where
  | ok | errorAlreadyInitialized | errorSetScancodeSetFailed | errorTooManyResends
  deriving DecidableEq, Repr

/-- `PS2_KBD_ENABLE_SCANNING`. -/
def ps2KbdEnableScanning : BitVec 8 := 0xf4#8

/-- `PS2_KBD_DISABLE_SCANNING`. -/
def ps2KbdDisableScanning : BitVec 8 := 0xf5#8

/-- `PS2_KBD_GET_SET_SCANCODE_SET`. -/
def ps2KbdGetSetScancodeSet : BitVec 8 := 0xf0#8

section Driver

variable {δ : Type} (dev : PortDevice δ) (fuel : ℕ)

/-- The loop of `ps2_kbd_set_scancode_set`, with the tries that are left. -/
def ps2KbdSetScancodeSetTries (port : BitVec 8) (scancodeSet : Ps2KbdScancodeSet) :
    ℕ → Ps2Program δ Ps2KbdErrorCode
  | 0 => pure .errorTooManyResends
  | tries + 1 => do
    let _ ← ps2SendByte dev fuel port ps2KbdGetSetScancodeSet
    let _ ← ps2ReceiveByte dev
    let _ ← ps2SendByte dev fuel port scancodeSet.byte
    let (_, response) ← ps2ReceiveByte dev
    if response = 0xfa#8 then pure .ok
    else if response = 0xfe#8 then ps2KbdSetScancodeSetTries port scancodeSet tries
    -- Any other answer leaves the loop, which is too late in the last try.
    else if tries = 0 then pure .errorTooManyResends
    else pure .ok

/-- `ps2_kbd_set_scancode_set`. -/
def ps2KbdSetScancodeSet (port : BitVec 8) (scancodeSet : Ps2KbdScancodeSet) :
    Ps2Program δ Ps2KbdErrorCode :=
  ps2KbdSetScancodeSetTries dev fuel port scancodeSet 3

/-- Changes the variables of the keyboard driver. -/
def modifyKbd (f : Ps2Kbd → Ps2Kbd) : Ps2Program δ Unit :=
  Traced.modify fun s => { s with kbd := f s.kbd }

/-- `ps2_kbd_init` from the check of the state on. -/
def ps2KbdConfigure (port : BitVec 8) : Ps2Program δ Ps2KbdErrorCode := do
  let _ ← ps2SendByte dev fuel port ps2KbdDisableScanning
  let result ← ps2KbdSetScancodeSet dev fuel port .scancodeSet1
  if result ≠ .ok then pure .errorSetScancodeSetFailed
  else
    let _ ← ps2SendByte dev fuel port ps2KbdEnableScanning
    modifyKbd fun kbd => { kbd with state := .normal }
    pure .ok

/-- `ps2_kbd_init`. -/
def ps2KbdInit (port : BitVec 8) : Ps2Program δ Ps2KbdErrorCode := do
  Traced.emit (.kbdInit port)
  modifyKbd fun kbd => { kbd with port := port }
  let kbd ← Traced.gets Ps2State.kbd
  if kbd.state ≠ .uninitialized then pure .errorAlreadyInitialized
  else ps2KbdConfigure dev fuel port

/-- `ps2_kbd_irq_callback`. -/
def ps2KbdIrqCallback : Ps2Program δ Unit := do
  let (_, scancodeRaw) ← ps2ReceiveByte dev
  let keyEvent ← Traced.modifyGet fun s =>
    let r := ps2KbdReceive s.kbd scancodeRaw
    (r.1, { s with kbd := r.2 })
  match keyEvent with
  | some keyEvent => Traced.emit (.appended keyEvent)
  | none => pure ()

/-- The variables of the controller's driver. -/
def Ps2State.controller (s : Ps2State δ) : Bool × Bool × Bool × Ps2DeviceStatus :=
  (s.port2Supported, s.port1Works, s.port2Works, s.ports)

/-- The events of initialising the keyboard at a port. -/
def Ps2Event.OfKbdInit (port : BitVec 8) : Ps2Event → Prop
  | .command c => c = ps2CmdSendNextByteToPort2
  | .sent p d | .sendTimeout p d =>
    p = port ∧ (d = ps2KbdDisableScanning ∨ d = ps2KbdGetSetScancodeSet
      ∨ d = Ps2KbdScancodeSet.scancodeSet1.byte ∨ d = ps2KbdEnableScanning)
  | .received _ | .receiveTimeout => True
  | .kbdInit p => p = port
  | _ => False

variable {dev fuel} {s s' : Ps2State δ} {t : List Ps2Event} {port data : BitVec 8}

theorem ofKbdInit_of_ofSend (port : BitVec 8)
    (h : data = ps2KbdDisableScanning ∨ data = ps2KbdGetSetScancodeSet
      ∨ data = Ps2KbdScancodeSet.scancodeSet1.byte ∨ data = ps2KbdEnableScanning)
    (e : Ps2Event) (he : e.OfSend port data) : e.OfKbdInit port := by
  cases e with
  | command c => exact he
  | sent p d | sendTimeout p d => exact ⟨he.1, he.2 ▸ h⟩
  | received v => trivial
  | receiveTimeout => trivial
  | _ => exact he.elim

theorem ps2KbdSetScancodeSet_confined :
    (ps2KbdSetScancodeSet dev fuel port .scancodeSet1).Confined Ps2State.variables
      (Ps2Event.OfKbdInit port) := by
  have hreceive : (ps2ReceiveByte dev).Confined Ps2State.variables (Ps2Event.OfKbdInit port) :=
    ps2ReceiveByte_confined (fun _ => trivial) trivial
  unfold ps2KbdSetScancodeSet
  induction 3 with
  | zero => exact .pure
  | succ tries ih =>
    refine .bind (ps2SendByte_confined.mono (ofKbdInit_of_ofSend port (by decide))) fun _ => ?_
    refine .bind hreceive fun _ => ?_
    refine .bind (ps2SendByte_confined.mono (ofKbdInit_of_ofSend port (by decide))) fun _ => ?_
    exact .bind hreceive fun _ => .ite .pure (.ite ih (.ite .pure .pure))

/-- The two variables of a record are those of the whole. -/
theorem controller_of_variables (h : s'.variables = s.variables) :
    s'.controller = s.controller ∧ s'.kbd = s.kbd := by
  have hcontroller := congrArg Ps2State.controller h
  have hkbd := congrArg Ps2State.kbd h
  exact ⟨hcontroller, hkbd⟩

/-- **Configuring the keyboard** makes the driver ready if it succeeds, and leaves
it as it is if not. -/
theorem ps2KbdConfigure_runs {r : Ps2KbdErrorCode}
    (h : (ps2KbdConfigure dev fuel port).Runs s t r s') :
    s'.controller = s.controller ∧ (∀ e ∈ t, e.OfKbdInit port) ∧
      (r = .errorSetScancodeSetFailed ∧ s'.kbd = s.kbd ∨ r = .ok ∧ s'.kbd.state = .normal) := by
  rw [ps2KbdConfigure, Traced.runs_bind] at h
  obtain ⟨_, s₁, t₁, _, hdisable, h, rfl⟩ := h
  obtain ⟨hs₁, ht₁⟩ :=
    (ps2SendByte_confined.mono (ofKbdInit_of_ofSend port (by decide))) hdisable
  rw [Traced.runs_bind] at h
  obtain ⟨result, s₂, t₂, _, hset, h, rfl⟩ := h
  obtain ⟨hs₂, ht₂⟩ := ps2KbdSetScancodeSet_confined hset
  split at h
  · obtain ⟨rfl, rfl, rfl⟩ := Traced.runs_pure.mp h
    obtain ⟨hcontroller, hkbd⟩ := controller_of_variables (hs₂.trans hs₁)
    refine ⟨hcontroller, ?_, .inl ⟨rfl, hkbd⟩⟩
    rw [List.append_nil]
    exact List.forall_mem_append.mpr ⟨ht₁, ht₂⟩
  · rw [Traced.runs_bind] at h
    obtain ⟨_, s₃, t₃, _, henable, h, rfl⟩ := h
    obtain ⟨hs₃, ht₃⟩ :=
      (ps2SendByte_confined.mono (ofKbdInit_of_ofSend port (by decide))) henable
    rw [Traced.runs_bind] at h
    obtain ⟨_, s₄, t₄, _, hready, h, rfl⟩ := h
    obtain ⟨rfl, rfl⟩ := Traced.runs_modify.mp hready
    obtain ⟨rfl, rfl, rfl⟩ := Traced.runs_pure.mp h
    obtain ⟨hcontroller, -⟩ := controller_of_variables (hs₃.trans (hs₂.trans hs₁))
    refine ⟨hcontroller, ?_, .inr ⟨rfl, rfl⟩⟩
    rw [List.append_nil, List.append_nil]
    exact List.forall_mem_append.mpr ⟨ht₁, List.forall_mem_append.mpr ⟨ht₂, ht₃⟩⟩

/-- **Initialising the keyboard** does what its result says: it makes the driver
ready if it succeeds, leaves it uninitialised if it fails, and refuses where the
driver was ready before. -/
theorem ps2KbdInit_runs {r : Ps2KbdErrorCode} (h : (ps2KbdInit dev fuel port).Runs s t r s') :
    s'.controller = s.controller ∧ (∃ t', t = .kbdInit port :: t' ∧ ∀ e ∈ t', e.OfKbdInit port) ∧
      (s.kbd.state ≠ .uninitialized ∧ r = .errorAlreadyInitialized ∧ s'.kbd.state = s.kbd.state ∨
        s.kbd.state = .uninitialized ∧ r = .errorSetScancodeSetFailed ∧
          s'.kbd.state = .uninitialized ∨
        s.kbd.state = .uninitialized ∧ r = .ok ∧ s'.kbd.state = .normal) := by
  rw [ps2KbdInit, Traced.runs_bind] at h
  obtain ⟨_, s₁, t₁, _, hemit, h, rfl⟩ := h
  obtain ⟨rfl, rfl⟩ := Traced.runs_emit.mp hemit
  rw [Traced.runs_bind] at h
  obtain ⟨_, s₂, t₂, _, hport, h, rfl⟩ := h
  obtain ⟨rfl, rfl⟩ := Traced.runs_modify.mp hport
  rw [Traced.runs_bind] at h
  obtain ⟨kbd, s₃, t₃, t', hget, h, rfl⟩ := h
  obtain ⟨rfl, rfl, rfl⟩ := Traced.runs_gets.mp hget
  by_cases hstate : s.kbd.state = .uninitialized
  · rw [if_neg (not_not.mpr hstate)] at h
    obtain ⟨hcontroller, ht, hresult⟩ := ps2KbdConfigure_runs h
    refine ⟨hcontroller, ⟨t', rfl, ht⟩, .inr ?_⟩
    rcases hresult with ⟨rfl, hkbd⟩ | ⟨rfl, hnormal⟩
    · exact .inl ⟨hstate, rfl, (congrArg Ps2Kbd.state hkbd).trans hstate⟩
    · exact .inr ⟨hstate, rfl, hnormal⟩
  · rw [if_pos hstate] at h
    obtain ⟨rfl, rfl, rfl⟩ := Traced.runs_pure.mp h
    exact ⟨rfl, ⟨[], rfl, List.forall_mem_nil _⟩, .inl ⟨hstate, rfl, rfl⟩⟩

/-- **The interrupt** receives a byte and does with it what `ps2KbdReceive`
does. -/
theorem ps2KbdIrqCallback_runs {u : Unit} (h : (ps2KbdIrqCallback dev).Runs s t u s') :
    ∃ v t₁, (t₁ = [.received v] ∨ t₁ = [.receiveTimeout]) ∧
      t = t₁ ++ ((ps2KbdReceive s.kbd v).1.map .appended).toList ∧
      s'.kbd = (ps2KbdReceive s.kbd v).2 := by
  rw [ps2KbdIrqCallback, Traced.runs_bind] at h
  obtain ⟨r, s₁, t₁, _, hreceive, h, rfl⟩ := h
  obtain ⟨hs₁, hr⟩ := ps2ReceiveByte_runs hreceive
  rw [Traced.runs_bind] at h
  obtain ⟨keyEvent, s₂, t₂, t₃, hdecode, h, rfl⟩ := h
  obtain ⟨rfl, rfl, rfl⟩ := Traced.runs_modifyGet.mp hdecode
  dsimp only at h
  rw [(controller_of_variables hs₁).2] at h
  have ht₁ : t₁ = [.received r.2] ∨ t₁ = [.receiveTimeout] := by
    rcases hr with ⟨v, rfl, ht₁⟩ | ⟨-, ht₁⟩
    · exact .inl ht₁
    · exact .inr ht₁
  refine ⟨r.2, t₁, ht₁, ?_⟩
  split at h
  · next hevent =>
    obtain ⟨rfl, rfl⟩ := Traced.runs_emit.mp h
    rw [hevent]
    exact ⟨rfl, rfl⟩
  · next hevent =>
    obtain ⟨-, rfl, rfl⟩ := Traced.runs_pure.mp h
    rw [hevent]
    exact ⟨rfl, rfl⟩

end Driver
