import Joes.Ps2Dialogue
import Joes.Ps2Init

/-!
# From the tests to the drivers

What `ps2_init_controller` does with a port is to follow from what was found
out about it: a port works if its interface test was passed, it has a device if
it works and the device was reset, a device is asked what it is if there is one,
and the keyboard driver is started for the port of a keyboard. `PortPipeline`
says this of one port, over the whole dialogue.

Port 1 keeps to it where its device can be reset. Port 2 keeps to it where
nothing comes of it at all, since its part of the source was copied from the one
for port 1 and not adapted (`ps2InitController_pipeline_iff`).
-/

section Pipeline

variable {δ : Type} {dev : PortDevice δ} {fuel : ℕ} {s s' : Ps2State δ} {t u : List Ps2Event}
  {port : BitVec 8}

/-- **The pipeline of a port**, given the command for its interface test and what
the driver's variables say about it in the end. -/
structure PortPipeline (port testCommand : BitVec 8) (works populated : Bool)
    (t : List Ps2Event) : Prop where
  tested : works = true → [.command testCommand, .received ps2PortTestPassed] <:+: t
  reset : populated = true → works = true ∧ .reset port .ok ∈ t
  identify : .sent port ps2DevCmdIdentify ∈ t → populated = true
  keyboard : .kbdInit port ∈ t ↔
    ∃ ty, .identified port ty ∈ t ∧ ps2DeviceIsKeyboard ty = true

/-- **The dialogues that keep to it.** The second answer to the interface test of
port 1, which is the one about port 2, is not that the test was passed. And if
the first one is, and the second is not missing, the device at port 1 can be
reset and the one at port 2 cannot be asked what it is. -/
def PipelineKept (t : List Ps2Event) : Prop :=
  let answers := following (.command ps2CmdTestPort1) t
  answers[1]? ≠ some (.received ps2PortTestPassed) ∧
    (answers[0]? = some (.received ps2PortTestPassed) → answers[1]? ≠ some .receiveTimeout →
      ps2ResetPassed ps2Port1 <:+: t ∧ ¬ IdentifyReached ps2Port2 t)

/-! ## Up to the tests -/

/-- The events that are about no device and no interface test. -/
def Ps2Event.OfController : Ps2Event → Prop
  | .command c => c ≠ ps2CmdTestPort1 ∧ c ≠ ps2CmdTestPort2
  | .sent p _ | .sendTimeout p _ => p = ps2PortCmd
  | .received _ | .receiveTimeout => True
  | _ => False

/-- What the tests and the devices change. -/
def Ps2State.findings (s : Ps2State δ) : Bool × Bool × Ps2DeviceStatus :=
  (s.port1Works, s.port2Works, s.ports)

theorem findings_of_variables (h : s'.variables = s.variables) : s'.findings = s.findings := by
  have hfindings := congrArg Ps2State.findings h
  exact hfindings

theorem findings_of_controller (h : s'.controller = s.controller) :
    s'.findings = s.findings := congrArg Prod.snd h

/-- A program that changes no variable does not change the findings. -/
theorem confined_findings {α : Type} {m : Ps2Program δ α} {E : Ps2Event → Prop}
    (h : m.Confined Ps2State.variables E) : m.Confined Ps2State.findings E :=
  h.comp Ps2State.findings

theorem ofController_of_ofSend {data : BitVec 8} (e : Ps2Event) (he : e.OfSend ps2PortCmd data) :
    e.OfController := by
  cases e with
  | command c => exact (show c = _ from he) ▸ ⟨by decide, by decide⟩
  | sent p d | sendTimeout p d => exact he.1
  | received v => trivial
  | receiveTimeout => trivial
  | _ => exact he.elim

theorem sendCommand_findings {c : BitVec 8} (h : c ≠ ps2CmdTestPort1 ∧ c ≠ ps2CmdTestPort2) :
    (ps2SendCommand dev fuel c).Confined Ps2State.findings Ps2Event.OfController :=
  confined_findings (ps2SendCommand_confined h)

theorem receiveByte_findings :
    (ps2ReceiveByte dev).Confined Ps2State.findings Ps2Event.OfController :=
  confined_findings (ps2ReceiveByte_confined (fun _ => trivial) trivial)

theorem writeConfigByte_findings (configByte : BitVec 8) :
    (ps2WriteConfigByte dev fuel configByte).Confined Ps2State.findings Ps2Event.OfController :=
  .bind (sendCommand_findings (by decide)) fun _ =>
    .bind ((confined_findings ps2RawSendByte_confined).mono ofController_of_ofSend) fun _ => .pure

theorem setPort2Supported_findings (configByte : BitVec 8) (supported : Bool) :
    (ps2SetPort2Supported dev fuel configByte supported).Confined Ps2State.findings
      Ps2Event.OfController :=
  .ite (.bind (sendCommand_findings (by decide)) fun _ =>
    .bind (writeConfigByte_findings configByte) fun _ => .modify fun _ => rfl)
    (.modify fun _ => rfl)

/-- A run of the interface tests and of what follows them. -/
def TestsRun (dev : PortDevice δ) (fuel : ℕ) (s : Ps2State δ) (t : List Ps2Event)
    (r : Ps2ErrorCode) (s' : Ps2State δ) : Prop :=
  ∃ configByte, (ps2TestPort1 dev fuel configByte).Runs s t r s'

/-- **Before the tests** nothing is found out. -/
theorem ps2InitController_leadsTo :
    (ps2InitController dev fuel).LeadsTo Ps2State.findings Ps2Event.OfController
      (TestsRun dev fuel) := by
  have hflush : (ps2FlushOutputBuffer dev fuel).Confined Ps2State.findings
      Ps2Event.OfController := confined_findings ps2FlushOutputBuffer_confined
  refine .bind hflush fun _ => .bind (sendCommand_findings (by decide)) fun _ =>
    .bind (sendCommand_findings (by decide)) fun _ => .bind hflush fun _ =>
    .bind (sendCommand_findings (by decide)) fun _ => .bind receiveByte_findings fun _ =>
    .ite (.of_confined .pure) ?_
  refine .bind (writeConfigByte_findings _) fun _ => .bind (sendCommand_findings (by decide))
    fun _ => .bind receiveByte_findings fun _ => .ite (.of_confined .pure)
    (.ite (.of_confined .pure) ?_)
  refine .bind (writeConfigByte_findings _) fun _ => .bind (sendCommand_findings (by decide))
    fun _ => .bind (sendCommand_findings (by decide)) fun _ => .bind receiveByte_findings fun _ =>
    .ite (.of_confined .pure) ?_
  exact .bind (setPort2Supported_findings _ _) fun _ => .of_runs fun _ _ _ _ hrun => ⟨_, hrun⟩

/-! ## The tests -/

/-- **An interface test**, as the code makes it: it times out, or its answer decides
whether a port is noted to work before the initialisation goes on. -/
theorem interfaceTest_runs {note : Ps2State δ → Ps2State δ} {next : Ps2Program δ Ps2ErrorCode}
    {r : Ps2ErrorCode}
    (h : (do
      ps2SendCommand dev fuel ps2CmdTestPort1
      let (result, response) ← ps2ReceiveByte dev
      if result = .errorTimeout then pure .errorTimeout
      else
        Traced.when (response = ps2PortTestPassed) (Traced.modify note)
        next : Ps2Program δ Ps2ErrorCode).Runs s t r s') :
    (s'.findings = s.findings ∧ t = [.command ps2CmdTestPort1, .receiveTimeout]) ∨
      ∃ v s₁ t₁, s₁.findings = s.findings ∧
        next.Runs (if v = ps2PortTestPassed then note s₁ else s₁) t₁ r s' ∧
        t = .command ps2CmdTestPort1 :: .received v :: t₁ := by
  rw [Traced.runs_bind] at h
  obtain ⟨_, s₁, _, _, hcommand, h, rfl⟩ := h
  obtain ⟨rfl, hs₁⟩ := ps2SendCommand_runs hcommand
  rw [Traced.runs_bind] at h
  obtain ⟨_, s₂, _, t₂, hreceive, h, rfl⟩ := h
  obtain ⟨hs₂, ⟨v, rfl, rfl⟩ | ⟨rfl, rfl⟩⟩ := ps2ReceiveByte_runs hreceive <;> dsimp only at h
  · rw [if_neg Ps2ErrorCode.noConfusion, Traced.runs_bind] at h
    obtain ⟨_, s₃, _, t₃, hnote, h, rfl⟩ := h
    refine .inr ⟨v, s₂, t₃, findings_of_variables (hs₂.trans hs₁), ?_, ?_⟩
    · rcases hnote.when with ⟨hv, hnote⟩ | ⟨hv, rfl, rfl⟩
      · obtain ⟨rfl, rfl⟩ := Traced.runs_modify.mp hnote
        rwa [if_pos hv]
      · rwa [if_neg hv]
    · rcases hnote.when with ⟨-, hnote⟩ | ⟨-, -, rfl⟩
      · obtain ⟨-, rfl⟩ := Traced.runs_modify.mp hnote
        rfl
      · rfl
  · rw [if_pos rfl] at h
    obtain ⟨-, rfl, rfl⟩ := Traced.runs_pure.mp h
    exact .inl ⟨findings_of_variables (hs₂.trans hs₁), rfl⟩

/-- **The test of port 2**: it is not made, it times out, or the port works as the
answer says. -/
theorem ps2TestPort2_runs {configByte : BitVec 8} {r : Ps2ErrorCode}
    (h : (ps2TestPort2 dev fuel configByte).Runs s t r s') :
    (ps2InitDevices dev fuel configByte).Runs s t r s' ∨
      (s'.findings = s.findings ∧ t = [.command ps2CmdTestPort1, .receiveTimeout]) ∨
      ∃ v s₁ t₁,
        s₁.findings = (s.port1Works, s.port2Works || v = ps2PortTestPassed, s.ports) ∧
        (ps2InitDevices dev fuel configByte).Runs s₁ t₁ r s' ∧
        t = .command ps2CmdTestPort1 :: .received v :: t₁ := by
  rw [ps2TestPort2, Traced.runs_bind] at h
  obtain ⟨supported, s₁, t₁, t₂, hget, h, rfl⟩ := h
  obtain ⟨-, rfl, rfl⟩ := Traced.runs_gets.mp hget
  split at h
  · refine .inr ((interfaceTest_runs h).imp_right fun ⟨v, s₂, t₃, hs₂, hnext, ht⟩ => ?_)
    refine ⟨v, _, t₃, ?_, hnext, ht⟩
    by_cases hv : v = ps2PortTestPassed
    · rw [if_pos hv, decide_eq_true hv, Bool.or_true]
      exact congrArg (fun f : Bool × Bool × Ps2DeviceStatus => (f.1, true, f.2.2)) hs₂
    · rw [if_neg hv, decide_eq_false hv, Bool.or_false]
      exact hs₂
  · exact .inl h

/-- **The test of port 1**: it times out, or the port works as the answer says and
the test of port 2 follows. -/
theorem ps2TestPort1_runs {configByte : BitVec 8} {r : Ps2ErrorCode}
    (h : (ps2TestPort1 dev fuel configByte).Runs s t r s') :
    (s'.findings = s.findings ∧ t = [.command ps2CmdTestPort1, .receiveTimeout]) ∨
      ∃ v s₁ t₁,
        s₁.findings = (s.port1Works || v = ps2PortTestPassed, s.port2Works, s.ports) ∧
        (ps2TestPort2 dev fuel configByte).Runs s₁ t₁ r s' ∧
        t = .command ps2CmdTestPort1 :: .received v :: t₁ := by
  refine (interfaceTest_runs h).imp_right fun ⟨v, s₁, t₁, hs₁, hnext, ht⟩ => ?_
  refine ⟨v, _, t₁, ?_, hnext, ht⟩
  by_cases hv : v = ps2PortTestPassed
  · rw [if_pos hv, decide_eq_true hv, Bool.or_true]
    exact congrArg (fun f : Bool × Bool × Ps2DeviceStatus => (true, f.2)) hs₁
  · rw [if_neg hv, decide_eq_false hv, Bool.or_false]
    exact hs₁

/-! ## The devices -/

/-- **The reset of a port that works** marks it as populated, whatever its
result. -/
theorem ps2ResetPort_runs {works : Ps2State δ → Bool}
    {setPopulated : Ps2DeviceStatus → Ps2DeviceStatus} {v : Unit} (hworks : works s = true)
    (h : (ps2ResetPort dev fuel port works setPopulated).Runs s t v s') :
    s'.findings = (s.port1Works, s.port2Works, setPopulated s.ports) ∧
      (∀ e ∈ t, e.OfReset port) ∧
      ∃ r, (∀ r', .reset port r' ∈ t ↔ r' = r) ∧
        ∀ u, .sent port ps2DevCmdReset ∉ u → (ps2ResetPassed port <:+: t ++ u ↔ r = .ok) := by
  rw [ps2ResetPort, Traced.runs_bind] at h
  obtain ⟨_, s₁, t₁, t₂, hget, h, rfl⟩ := h
  obtain ⟨rfl, rfl, rfl⟩ := Traced.runs_gets.mp hget
  rw [Traced.when, if_pos hworks, Traced.runs_bind] at h
  obtain ⟨r, s₂, t₃, t₄, hreset, h, rfl⟩ := h
  obtain ⟨rfl, rfl⟩ := Traced.runs_modify.mp h
  obtain ⟨hs, hevents, hresult, hpassed⟩ := ps2ResetDevice_runs hreset
  rw [List.nil_append, List.append_nil]
  refine ⟨?_, hevents, r, hresult, hpassed⟩
  exact congrArg (fun f : Bool × Bool × Ps2DeviceStatus => (f.1, f.2.1, setPopulated f.2.2))
    (findings_of_variables hs)

/-- The reset of a port that does not work is none. -/
theorem ps2ResetPort_of_not_works {works : Ps2State δ → Bool}
    {setPopulated : Ps2DeviceStatus → Ps2DeviceStatus} {v : Unit} (hworks : works s = false)
    (h : (ps2ResetPort dev fuel port works setPopulated).Runs s t v s') : s = s' ∧ [] = t := by
  rw [ps2ResetPort, Traced.runs_bind] at h
  obtain ⟨_, s₁, t₁, t₂, hget, h, rfl⟩ := h
  obtain ⟨rfl, rfl, rfl⟩ := Traced.runs_gets.mp hget
  rw [Traced.when, if_neg (Bool.eq_false_iff.mp hworks)] at h
  exact (Traced.runs_pure.mp h).2

/-- **The identification of a port**, where port 1 has a device: it is done, and
the keyboard driver is given port 1 if its outcome is a keyboard. -/
theorem ps2IdentifyPort_runs {deviceType : Ps2DeviceStatus → BitVec 32}
    {setDeviceType : BitVec 32 → Ps2DeviceStatus → Ps2DeviceStatus} {v : Unit}
    (hport : port ≠ ps2PortCmd) (hpopulated : s.ports.port1Populated = true)
    (h : (ps2IdentifyPort dev fuel port deviceType setDeviceType).Runs s t v s') :
    ∃ ty t₁ t₂, t = t₁ ++ t₂ ∧
      s'.findings = (s.port1Works, s.port2Works, setDeviceType ty s.ports) ∧
      (∀ e ∈ t₁, e.OfIdentify port) ∧
      (ty = deviceType s.ports ∧ (∀ ty', .identified port ty' ∉ t₁) ∨
        .sent port ps2DevCmdIdentify ∈ t₁ ∧ ∀ ty', .identified port ty' ∈ t₁ ↔ ty' = ty) ∧
      (∀ u, .sent port ps2DevCmdDisableScanning ∉ u → .sendTimeout port ps2DevCmdIdentify ∉ u →
        (.sent port ps2DevCmdIdentify ∈ t₁ ↔ IdentifyReached port (t₁ ++ u))) ∧
      (∀ e ∈ t₂, e.OfKbdInit ps2Port1) ∧
      (.kbdInit ps2Port1 ∈ t₂ ↔ ps2DeviceIsKeyboard ty = true) := by
  rw [ps2IdentifyPort, Traced.runs_bind] at h
  obtain ⟨_, s₁, t₁, t₂, hget, h, rfl⟩ := h
  obtain ⟨rfl, rfl, rfl⟩ := Traced.runs_gets.mp hget
  rw [Traced.when, if_pos hpopulated, Traced.runs_bind] at h
  obtain ⟨⟨r, ty⟩, s₂, t₃, t₄, hidentify, h, rfl⟩ := h
  obtain ⟨hs₂, hevents, hidentified, hreached⟩ := ps2IdentifyDevice_runs hport hidentify
  have hfindings := findings_of_variables hs₂
  rw [Traced.runs_bind] at h
  obtain ⟨_, s₃, t₅, t₆, hset, h, rfl⟩ := h
  obtain ⟨rfl, rfl⟩ := Traced.runs_modify.mp hset
  have hs₃ : (s₂.port1Works, s₂.port2Works, setDeviceType ty s₂.ports)
      = (s.port1Works, s.port2Works, setDeviceType ty s.ports) :=
    congrArg (fun f : Bool × Bool × Ps2DeviceStatus => (f.1, f.2.1, setDeviceType ty f.2.2))
      hfindings
  rcases h.when with ⟨hkeyboard, hrest⟩ | ⟨hkeyboard, rfl, rfl⟩
  · rw [Traced.runs_bind] at hrest
    obtain ⟨_, s₄, t₇, t₈, hinit, hrest, rfl⟩ := hrest
    obtain ⟨-, rfl, rfl⟩ := Traced.runs_pure.mp hrest
    obtain ⟨hcontroller, ⟨t', rfl, ht'⟩, -⟩ := ps2KbdInit_runs hinit
    refine ⟨ty, t₃, .kbdInit ps2Port1 :: t', ?_, (findings_of_controller hcontroller).trans hs₃,
      hevents, hidentified, hreached, List.forall_mem_cons.mpr ⟨rfl, ht'⟩,
      iff_of_true List.mem_cons_self hkeyboard⟩
    rw [List.append_nil]
    rfl
  · exact ⟨ty, t₃, [], rfl, hs₃, hevents, hidentified, hreached, List.forall_mem_nil _,
      iff_of_false List.not_mem_nil hkeyboard⟩

/-- Enabling the ports finds out nothing. -/
theorem enablePorts_findings (configByte : BitVec 8) :
    (ps2EnablePorts dev fuel configByte).Confined Ps2State.findings Ps2Event.OfController :=
  .bind .gets fun _ => .bind .gets fun _ =>
    .bind (.when (sendCommand_findings (by decide))) fun _ =>
    .bind (.when (sendCommand_findings (by decide))) fun _ => writeConfigByte_findings _

/-- The events other than an interface test. -/
def Ps2Event.NoTest (e : Ps2Event) : Prop :=
  e ≠ .command ps2CmdTestPort1 ∧ e ≠ .command ps2CmdTestPort2

/-- A kind of event tests no port if its commands do not. -/
theorem noTest_of_command {E : Ps2Event → Prop}
    (h : ∀ c, E (.command c) → c ≠ ps2CmdTestPort1 ∧ c ≠ ps2CmdTestPort2) (e : Ps2Event)
    (he : E e) : e.NoTest := by
  constructor
  · rintro rfl
    exact (h _ he).1 rfl
  · rintro rfl
    exact (h _ he).2 rfl

theorem noTest_of_ofController (e : Ps2Event) (he : e.OfController) : e.NoTest :=
  noTest_of_command (fun _ h => h) e he

theorem noTest_of_ofReset (e : Ps2Event) (he : e.OfReset port) : e.NoTest := by
  refine noTest_of_command (E := Ps2Event.OfReset port) (fun c h => ?_) e he
  obtain rfl : c = ps2CmdSendNextByteToPort2 := h
  decide

theorem noTest_of_ofKbdInit (e : Ps2Event) (he : e.OfKbdInit port) : e.NoTest := by
  refine noTest_of_command (E := Ps2Event.OfKbdInit port) (fun c h => ?_) e he
  obtain rfl : c = ps2CmdSendNextByteToPort2 := h
  decide

theorem noTest_of_ofIdentify (e : Ps2Event) (he : e.OfIdentify port) : e.NoTest := by
  refine noTest_of_command (E := Ps2Event.OfIdentify port) (fun c h => ?_) e he
  obtain rfl | rfl | rfl : c = ps2CmdSendNextByteToPort2 ∨ c = ps2CmdReadConfigByte ∨
    c = ps2CmdWriteConfigByte := h <;> decide

/-- What the tests found out about the ports themselves. -/
def Ps2State.working (s : Ps2State δ) : Bool × Bool := (s.port1Works, s.port2Works)

theorem resetPort_working {works : Ps2State δ → Bool}
    {setPopulated : Ps2DeviceStatus → Ps2DeviceStatus} :
    (ps2ResetPort dev fuel port works setPopulated).Confined Ps2State.working
      Ps2Event.NoTest := by
  have hreset : (ps2ResetDevice dev fuel port).Confined Ps2State.working Ps2Event.NoTest := by
    intro s t r s' hrun
    obtain ⟨hs, hevents, -⟩ := ps2ResetDevice_runs hrun
    exact ⟨congrArg (fun f : Bool × Bool × Ps2DeviceStatus => (f.1, f.2.1))
      (findings_of_variables hs), fun e he => noTest_of_ofReset e (hevents e he)⟩
  exact .bind .gets fun _ => .when (.bind hreset fun _ => .modify fun _ => rfl)

theorem kbdInit_working :
    (ps2KbdInit dev fuel port).Confined Ps2State.working Ps2Event.NoTest := by
  intro s t r s' hrun
  obtain ⟨hs, ⟨t', rfl, ht'⟩, -⟩ := ps2KbdInit_runs hrun
  refine ⟨congrArg (fun f : Bool × Bool × Ps2DeviceStatus => (f.1, f.2.1))
    (findings_of_controller hs), List.forall_mem_cons.mpr ⟨?_, ?_⟩⟩
  · exact ⟨Ps2Event.noConfusion, Ps2Event.noConfusion⟩
  · exact fun e he => noTest_of_ofKbdInit e (ht' e he)

theorem identifyPort_working (hport : port ≠ ps2PortCmd)
    {deviceType : Ps2DeviceStatus → BitVec 32}
    {setDeviceType : BitVec 32 → Ps2DeviceStatus → Ps2DeviceStatus} :
    (ps2IdentifyPort dev fuel port deviceType setDeviceType).Confined Ps2State.working
      Ps2Event.NoTest := by
  have hidentify : ∀ ty, (ps2IdentifyDevice dev fuel port ty).Confined Ps2State.working
      Ps2Event.NoTest := by
    intro ty s t r s' hrun
    obtain ⟨hs, hevents, -⟩ := ps2IdentifyDevice_runs hport hrun
    exact ⟨congrArg (fun f : Bool × Bool × Ps2DeviceStatus => (f.1, f.2.1))
      (findings_of_variables hs), fun e he => noTest_of_ofIdentify e (hevents e he)⟩
  exact .bind .gets fun _ => .when (.bind (hidentify _) fun _ =>
    .bind (.modify fun _ => rfl) fun _ => .when (.bind kbdInit_working fun _ => .pure))

/-- **The devices** do not change which ports work, and no port is tested again. -/
theorem ps2InitDevices_confined (configByte : BitVec 8) :
    (ps2InitDevices dev fuel configByte).Confined Ps2State.working Ps2Event.NoTest := by
  have henable : (ps2EnablePorts dev fuel configByte).Confined Ps2State.working
      Ps2Event.NoTest :=
    ((enablePorts_findings configByte).comp fun f => (f.1, f.2.1)).mono noTest_of_ofController
  refine .bind .gets fun _ => .bind .gets fun _ => .ite .pure (.bind henable fun _ =>
    .bind resetPort_working fun _ => .bind resetPort_working fun _ =>
    .bind (identifyPort_working (by decide)) fun _ =>
    .bind (identifyPort_working (by decide)) fun _ => .bind (.modify fun _ => rfl) fun _ => .pure)

/-! ## The two ports -/

/-- The events up to the devices. -/
def Ps2Event.OfTests (e : Ps2Event) : Prop := e.OfController ∨ e = .command ps2CmdTestPort1

/-- Where no device was reached, a port keeps to the pipeline. -/
theorem pipeline_of_ofTests {test : BitVec 8} {works : Bool} (hport : port ≠ ps2PortCmd)
    (hevents : ∀ e ∈ t, e.OfTests)
    (hworks : works = true → [.command test, .received ps2PortTestPassed] <:+: t) :
    PortPipeline port test works false t where
  tested := hworks
  reset h := by cases h
  identify h := by
    rcases hevents _ h with hsent | hcommand
    · exact absurd hsent hport
    · cases hcommand
  keyboard := by
    refine iff_of_false (fun h => ?_) fun ⟨ty, h, _⟩ => ?_
    · rcases hevents _ h with hinit | hcommand
      · exact hinit
      · cases hcommand
    · rcases hevents _ h with hidentified | hcommand
      · exact hidentified
      · cases hcommand

/-- What comes before an identification does not matter for it. -/
theorem identifyReached_append (ht : .sent port ps2DevCmdDisableScanning ∉ t)
    (ht' : .sendTimeout port ps2DevCmdIdentify ∉ t) :
    IdentifyReached port (t ++ u) ↔ IdentifyReached port u := by
  unfold IdentifyReached ps2ConfigDelivered
  simp only [infix_append_of_not_mem ht, List.count_append, List.count_eq_zero.mpr ht',
    Nat.zero_add]

/-- A device that can be asked what it is has acknowledged that it is to stop
scanning. -/
theorem IdentifyReached.acknowledged (h : IdentifyReached port t) :
    [.sent port ps2DevCmdDisableScanning, .received ps2DevAck] <:+: t := by
  obtain ⟨⟨config, hdelivered⟩, -⟩ := h
  have hprefix : [.sent port ps2DevCmdDisableScanning, .received ps2DevAck] <+:
      ps2ConfigDelivered port config := List.prefix_append _ _
  exact hprefix.isInfix.trans hdelivered

/-- **The dialogue with the devices** where port 1 works and port 2 does not: the
ports are enabled, the device at port 1 is reset, it is identified, and the
keyboard driver is started if it is a keyboard; the device at port 2 is
identified, and the keyboard driver is started for port 1 if that one is. -/
structure DeviceDialogue (t : List Ps2Event) where
  (enable reset identify₁ kbd₁ identify₂ kbd₂ : List Ps2Event)
  result : Ps2ErrorCode
  (ty₁ ty₂ : BitVec 32)
  trace_eq : t = enable ++ (reset ++ (identify₁ ++ (kbd₁ ++ (identify₂ ++ kbd₂))))
  ofController : ∀ e ∈ enable, e.OfController
  ofReset : ∀ e ∈ reset, e.OfReset ps2Port1
  result_iff : ∀ r, .reset ps2Port1 r ∈ reset ↔ r = result
  passed_iff : ∀ u, .sent ps2Port1 ps2DevCmdReset ∉ u →
    (ps2ResetPassed ps2Port1 <:+: reset ++ u ↔ result = .ok)
  ofIdentify₁ : ∀ e ∈ identify₁, e.OfIdentify ps2Port1
  type₁ : ty₁ = 0#32 ∧ (∀ ty, .identified ps2Port1 ty ∉ identify₁) ∨
    .sent ps2Port1 ps2DevCmdIdentify ∈ identify₁ ∧
      ∀ ty, .identified ps2Port1 ty ∈ identify₁ ↔ ty = ty₁
  ofKbdInit₁ : ∀ e ∈ kbd₁, e.OfKbdInit ps2Port1
  keyboard₁ : .kbdInit ps2Port1 ∈ kbd₁ ↔ ps2DeviceIsKeyboard ty₁ = true
  ofIdentify₂ : ∀ e ∈ identify₂, e.OfIdentify ps2Port2
  type₂ : ty₂ = 0#32 ∧ (∀ ty, .identified ps2Port2 ty ∉ identify₂) ∨
    .sent ps2Port2 ps2DevCmdIdentify ∈ identify₂ ∧
      ∀ ty, .identified ps2Port2 ty ∈ identify₂ ↔ ty = ty₂
  reached_iff : ∀ u, .sent ps2Port2 ps2DevCmdDisableScanning ∉ u →
    .sendTimeout ps2Port2 ps2DevCmdIdentify ∉ u →
      (.sent ps2Port2 ps2DevCmdIdentify ∈ identify₂ ↔ IdentifyReached ps2Port2 (identify₂ ++ u))
  ofKbdInit₂ : ∀ e ∈ kbd₂, e.OfKbdInit ps2Port1
  keyboard₂ : .kbdInit ps2Port1 ∈ kbd₂ ↔ ps2DeviceIsKeyboard ty₂ = true

/-- **The run of the devices**, taken apart. -/
theorem ps2InitDevices_runs {configByte : BitVec 8} {r : Ps2ErrorCode}
    (hs : s.findings = (true, false, ⟨false, 0#32, false, 0#32⟩))
    (h : (ps2InitDevices dev fuel configByte).Runs s t r s') :
    ∃ D : DeviceDialogue t, s'.findings = (true, false, ⟨true, D.ty₁, false, D.ty₂⟩) := by
  have hworks₁ : s.port1Works = true := congrArg Prod.fst hs
  rw [ps2InitDevices, Traced.runs_bind] at h
  obtain ⟨_, _, t₁, _, hget, h, rfl⟩ := h
  obtain ⟨rfl, rfl, rfl⟩ := Traced.runs_gets.mp hget
  rw [Traced.runs_bind] at h
  obtain ⟨_, _, t₁, _, hget, h, rfl⟩ := h
  obtain ⟨rfl, rfl, rfl⟩ := Traced.runs_gets.mp hget
  rw [if_neg (fun hnone => by rw [hworks₁] at hnone; cases hnone.1), Traced.runs_bind] at h
  obtain ⟨_, s₁, t₁, _, henable, h, rfl⟩ := h
  obtain ⟨hs₁, henable⟩ := enablePorts_findings _ henable
  rw [hs] at hs₁
  rw [Traced.runs_bind] at h
  obtain ⟨_, s₂, t₂, _, hreset₁, h, rfl⟩ := h
  obtain ⟨hs₂, hreset, result, hresult, hpassed⟩ :=
    ps2ResetPort_runs (congrArg Prod.fst hs₁) hreset₁
  rw [show s₁.port1Works = true from congrArg Prod.fst hs₁,
    show s₁.port2Works = false from congrArg (fun f => f.2.1) hs₁,
    show s₁.ports = _ from congrArg (fun f => f.2.2) hs₁] at hs₂
  rw [Traced.runs_bind] at h
  obtain ⟨_, s₃, t₃, _, hreset₂, h, rfl⟩ := h
  obtain ⟨rfl, rfl⟩ := ps2ResetPort_of_not_works (congrArg (fun f => f.2.1) hs₂) hreset₂
  rw [Traced.runs_bind] at h
  obtain ⟨_, s₄, _, _, hidentify₁, h, rfl⟩ := h
  obtain ⟨ty₁, i₁, k₁, rfl, hs₄, hi₁, htype₁, -, hk₁, hkeyboard₁⟩ :=
    ps2IdentifyPort_runs (by decide) (congrArg (fun f => f.2.2.port1Populated) hs₂) hidentify₁
  rw [show s₂.port1Works = true from congrArg Prod.fst hs₂,
    show s₂.port2Works = false from congrArg (fun f => f.2.1) hs₂,
    show s₂.ports = _ from congrArg (fun f => f.2.2) hs₂] at hs₄
  rw [show s₂.ports = _ from congrArg (fun f => f.2.2) hs₂] at htype₁
  rw [Traced.runs_bind] at h
  obtain ⟨_, s₅, _, _, hidentify₂, h, rfl⟩ := h
  obtain ⟨ty₂, i₂, k₂, rfl, hs₅, hi₂, htype₂, hreached, hk₂, hkeyboard₂⟩ :=
    ps2IdentifyPort_runs (by decide) (congrArg (fun f => f.2.2.port1Populated) hs₄) hidentify₂
  rw [show s₄.port1Works = true from congrArg Prod.fst hs₄,
    show s₄.port2Works = false from congrArg (fun f => f.2.1) hs₄,
    show s₄.ports = _ from congrArg (fun f => f.2.2) hs₄] at hs₅
  rw [show s₄.ports = _ from congrArg (fun f => f.2.2) hs₄] at htype₂
  rw [Traced.runs_bind] at h
  obtain ⟨_, s₆, t₆, _, hirq, h, rfl⟩ := h
  obtain ⟨rfl, rfl⟩ := Traced.runs_modify.mp hirq
  obtain ⟨-, rfl, rfl⟩ := Traced.runs_pure.mp h
  refine ⟨⟨t₁, t₂, i₁, k₁, i₂, k₂, result, ty₁, ty₂, by simp, henable, hreset, hresult, hpassed,
    hi₁, htype₁, hk₁, hkeyboard₁, hi₂, htype₂, hreached, hk₂, hkeyboard₂⟩, ?_⟩
  exact hs₅

/-! ### What the dialogue with the devices contains -/

namespace DeviceDialogue

variable {q : List Ps2Event} {e : Ps2Event} {ty : BitVec 32} {r : Ps2ErrorCode}

/-- An event is about a device in one of the parts. -/
theorem mem_iff (D : DeviceDialogue t) (hq : ∀ e ∈ q, e.OfTests) (he : ¬ e.OfTests) :
    e ∈ q ++ t ↔
      e ∈ D.reset ∨ e ∈ D.identify₁ ∨ e ∈ D.kbd₁ ∨ e ∈ D.identify₂ ∨ e ∈ D.kbd₂ := by
  have henable : e ∉ D.enable := fun hmem => he (.inl (D.ofController e hmem))
  conv_lhs => rw [D.trace_eq]
  simp only [List.mem_append, mt (hq e) he, henable, false_or]

theorem reset_mem_iff (D : DeviceDialogue t) (hq : ∀ e ∈ q, e.OfTests) :
    .reset ps2Port1 r ∈ q ++ t ↔ r = D.result := by
  have h₁ : .reset ps2Port1 r ∉ D.identify₁ := fun hmem => D.ofIdentify₁ _ hmem
  have h₂ : .reset ps2Port1 r ∉ D.kbd₁ := fun hmem => D.ofKbdInit₁ _ hmem
  have h₃ : .reset ps2Port1 r ∉ D.identify₂ := fun hmem => D.ofIdentify₂ _ hmem
  have h₄ : .reset ps2Port1 r ∉ D.kbd₂ := fun hmem => D.ofKbdInit₂ _ hmem
  rw [D.mem_iff hq (fun h => h.elim id Ps2Event.noConfusion)]
  simp [h₁, h₂, h₃, h₄, D.result_iff]

theorem identified_mem_iff (D : DeviceDialogue t) (hq : ∀ e ∈ q, e.OfTests) :
    .identified port ty ∈ q ++ t ↔
      .identified port ty ∈ D.identify₁ ∨ .identified port ty ∈ D.identify₂ := by
  have h₁ : .identified port ty ∉ D.reset := fun hmem => D.ofReset _ hmem
  have h₂ : .identified port ty ∉ D.kbd₁ := fun hmem => D.ofKbdInit₁ _ hmem
  have h₃ : .identified port ty ∉ D.kbd₂ := fun hmem => D.ofKbdInit₂ _ hmem
  rw [D.mem_iff hq (fun h => h.elim id Ps2Event.noConfusion)]
  simp [h₁, h₂, h₃]

theorem identified₁_mem_iff (D : DeviceDialogue t) (hq : ∀ e ∈ q, e.OfTests) :
    .identified ps2Port1 ty ∈ q ++ t ↔ .identified ps2Port1 ty ∈ D.identify₁ := by
  rw [D.identified_mem_iff hq]
  exact or_iff_left fun hmem =>
    absurd (D.ofIdentify₂ _ hmem) (show ps2Port1 ≠ ps2Port2 by decide)

theorem identified₂_mem_iff (D : DeviceDialogue t) (hq : ∀ e ∈ q, e.OfTests) :
    .identified ps2Port2 ty ∈ q ++ t ↔ .identified ps2Port2 ty ∈ D.identify₂ := by
  rw [D.identified_mem_iff hq]
  exact or_iff_right fun hmem =>
    absurd (D.ofIdentify₁ _ hmem) (show ps2Port2 ≠ ps2Port1 by decide)

theorem identifySent₂_mem_iff (D : DeviceDialogue t) (hq : ∀ e ∈ q, e.OfTests) :
    .sent ps2Port2 ps2DevCmdIdentify ∈ q ++ t ↔
      .sent ps2Port2 ps2DevCmdIdentify ∈ D.identify₂ := by
  have hport : ps2Port2 ≠ ps2Port1 := by decide
  have hcmd : ps2Port2 ≠ ps2PortCmd := by decide
  have h₁ : .sent ps2Port2 ps2DevCmdIdentify ∉ D.reset := fun hmem => hport (D.ofReset _ hmem).1
  have h₂ : .sent ps2Port2 ps2DevCmdIdentify ∉ D.identify₁ := fun hmem =>
    (D.ofIdentify₁ _ hmem).elim hcmd fun h => hport h.1
  have h₃ : .sent ps2Port2 ps2DevCmdIdentify ∉ D.kbd₁ := fun hmem =>
    hport (D.ofKbdInit₁ _ hmem).1
  have h₄ : .sent ps2Port2 ps2DevCmdIdentify ∉ D.kbd₂ := fun hmem =>
    hport (D.ofKbdInit₂ _ hmem).1
  have htests : ¬ (Ps2Event.sent ps2Port2 ps2DevCmdIdentify).OfTests := fun h =>
    h.elim hcmd Ps2Event.noConfusion
  rw [D.mem_iff hq htests]
  simp [h₁, h₂, h₃, h₄]

/-- The keyboard driver is started for port 1 only. -/
theorem kbdInit_mem_iff (D : DeviceDialogue t) (hq : ∀ e ∈ q, e.OfTests) :
    .kbdInit port ∈ q ++ t ↔ port = ps2Port1 ∧
      (ps2DeviceIsKeyboard D.ty₁ = true ∨ ps2DeviceIsKeyboard D.ty₂ = true) := by
  have h₁ : .kbdInit port ∉ D.reset := fun hmem => D.ofReset _ hmem
  have h₂ : .kbdInit port ∉ D.identify₁ := fun hmem => D.ofIdentify₁ _ hmem
  have h₃ : .kbdInit port ∉ D.identify₂ := fun hmem => D.ofIdentify₂ _ hmem
  rw [D.mem_iff hq (fun h => h.elim id Ps2Event.noConfusion)]
  simp only [h₁, h₂, h₃, false_or]
  constructor
  · rintro (hmem | hmem)
    · obtain rfl : port = ps2Port1 := D.ofKbdInit₁ _ hmem
      exact ⟨rfl, .inl (D.keyboard₁.mp hmem)⟩
    · obtain rfl : port = ps2Port1 := D.ofKbdInit₂ _ hmem
      exact ⟨rfl, .inr (D.keyboard₂.mp hmem)⟩
  · rintro ⟨rfl, h⟩
    exact h.imp D.keyboard₁.mpr D.keyboard₂.mpr

theorem resetPassed_iff (D : DeviceDialogue t) (hq : ∀ e ∈ q, e.OfTests) :
    ps2ResetPassed ps2Port1 <:+: q ++ t ↔ D.result = .ok := by
  have hcmd : ps2Port1 ≠ ps2PortCmd := by decide
  have hport : ps2Port1 ≠ ps2Port2 := by decide
  have hq' : .sent ps2Port1 ps2DevCmdReset ∉ q := fun hmem =>
    (hq _ hmem).elim hcmd Ps2Event.noConfusion
  have henable : .sent ps2Port1 ps2DevCmdReset ∉ D.enable := fun hmem =>
    hcmd (D.ofController _ hmem)
  have h₁ : .sent ps2Port1 ps2DevCmdReset ∉ D.identify₁ := fun hmem =>
    (D.ofIdentify₁ _ hmem).elim hcmd fun h => absurd h.2 (by decide)
  have h₂ : .sent ps2Port1 ps2DevCmdReset ∉ D.kbd₁ := fun hmem =>
    absurd (D.ofKbdInit₁ _ hmem).2 (by decide)
  have h₃ : .sent ps2Port1 ps2DevCmdReset ∉ D.identify₂ := fun hmem =>
    (D.ofIdentify₂ _ hmem).elim hcmd fun h => hport h.1
  have h₄ : .sent ps2Port1 ps2DevCmdReset ∉ D.kbd₂ := fun hmem =>
    absurd (D.ofKbdInit₂ _ hmem).2 (by decide)
  conv_lhs => rw [D.trace_eq]
  have hstart : ∀ {u : List Ps2Event} {v}, .sent ps2Port1 ps2DevCmdReset ∉ u →
      (ps2ResetPassed ps2Port1 <:+: u ++ v ↔ ps2ResetPassed ps2Port1 <:+: v) :=
    infix_append_of_not_mem
  rw [hstart hq', hstart henable]
  exact D.passed_iff _ (by simp [h₁, h₂, h₃, h₄])

theorem identifyReached_iff (D : DeviceDialogue t) (hq : ∀ e ∈ q, e.OfTests) :
    IdentifyReached ps2Port2 (q ++ t) ↔ .sent ps2Port2 ps2DevCmdIdentify ∈ D.identify₂ := by
  have hport : ps2Port2 ≠ ps2Port1 := by decide
  have hcmd : ps2Port2 ≠ ps2PortCmd := by decide
  have hbefore : ∀ data,
      .sent ps2Port2 data ∉ q ++ (D.enable ++ (D.reset ++ (D.identify₁ ++ D.kbd₁))) ∧
      .sendTimeout ps2Port2 data ∉ q ++ (D.enable ++ (D.reset ++ (D.identify₁ ++ D.kbd₁))) := by
    intro data
    constructor
    all_goals
      simp only [List.mem_append, not_or]
      exact ⟨fun he => (hq _ he).elim hcmd Ps2Event.noConfusion,
        fun he => hcmd (D.ofController _ he), fun he => hport (D.ofReset _ he).1,
        fun he => (D.ofIdentify₁ _ he).elim hcmd fun h => hport h.1,
        fun he => hport (D.ofKbdInit₁ _ he).1⟩
  have hsplit : q ++ t = q ++ (D.enable ++ (D.reset ++ (D.identify₁ ++ D.kbd₁))) ++
      (D.identify₂ ++ D.kbd₂) := by
    conv_lhs => rw [D.trace_eq]
    simp only [List.append_assoc]
  rw [hsplit, identifyReached_append (hbefore _).1 (hbefore _).2]
  exact (D.reached_iff _ (fun he => hport (D.ofKbdInit₂ _ he).1)
    fun he => hport (D.ofKbdInit₂ _ he).1).symm

/-- **Port 1** keeps to the pipeline where its device can be reset and no keyboard is
found at port 2. -/
theorem pipeline₁_iff (D : DeviceDialogue t) (hq : ∀ e ∈ q, e.OfTests)
    (hpassed : [.command ps2CmdTestPort1, .received ps2PortTestPassed] <:+: q) :
    PortPipeline ps2Port1 ps2CmdTestPort1 true true (q ++ t) ↔
      D.result = .ok ∧
        (ps2DeviceIsKeyboard D.ty₂ = true → ps2DeviceIsKeyboard D.ty₁ = true) := by
  have hidentified : (∃ ty, .identified ps2Port1 ty ∈ q ++ t ∧ ps2DeviceIsKeyboard ty = true) ↔
      ps2DeviceIsKeyboard D.ty₁ = true := by
    simp only [D.identified₁_mem_iff hq]
    rcases D.type₁ with ⟨hty, hnone⟩ | ⟨-, hsome⟩
    · refine iff_of_false (fun ⟨ty, hmem, _⟩ => hnone ty hmem) ?_
      rw [hty]
      decide
    · simp [hsome]
  have hkeyboard : .kbdInit ps2Port1 ∈ q ++ t ↔
      ps2DeviceIsKeyboard D.ty₁ = true ∨ ps2DeviceIsKeyboard D.ty₂ = true := by
    rw [D.kbdInit_mem_iff hq, and_iff_right rfl]
  constructor
  · intro h
    refine ⟨((D.reset_mem_iff hq).mp (h.reset rfl).2).symm, fun hty₂ => ?_⟩
    exact hidentified.mp (h.keyboard.mp (hkeyboard.mpr (.inr hty₂)))
  · rintro ⟨hok, hty⟩
    refine ⟨fun _ => hpassed.trans (List.prefix_append _ _).isInfix,
      fun _ => ⟨rfl, (D.reset_mem_iff hq).mpr hok.symm⟩, fun _ => rfl, ?_⟩
    rw [hidentified, hkeyboard]
    exact or_iff_left_of_imp hty

/-- **Port 2** keeps to the pipeline where its device is not asked what it is. -/
theorem pipeline₂_iff (D : DeviceDialogue t) (hq : ∀ e ∈ q, e.OfTests) :
    PortPipeline ps2Port2 ps2CmdTestPort2 false false (q ++ t) ↔
      .sent ps2Port2 ps2DevCmdIdentify ∉ D.identify₂ := by
  constructor
  · intro h hmem
    cases h.identify ((D.identifySent₂_mem_iff hq).mpr hmem)
  · intro hnot
    refine ⟨nofun, nofun, fun hmem => ?_, ?_⟩
    · exact (hnot ((D.identifySent₂_mem_iff hq).mp hmem)).elim
    rw [D.kbdInit_mem_iff hq]
    refine iff_of_false (fun h => absurd h.1 (by decide)) fun ⟨ty, hmem, _⟩ => ?_
    rw [D.identified₂_mem_iff hq] at hmem
    rcases D.type₂ with ⟨-, hnone⟩ | ⟨hsent, -⟩
    · exact hnone ty hmem
    · exact hnot hsent

/-- **Both ports** keep to it where the device at port 1 can be reset and the one at
port 2 cannot be asked what it is. -/
theorem pipelines_iff (D : DeviceDialogue t) (hq : ∀ e ∈ q, e.OfTests)
    (hpassed : [.command ps2CmdTestPort1, .received ps2PortTestPassed] <:+: q) :
    PortPipeline ps2Port1 ps2CmdTestPort1 true true (q ++ t) ∧
        PortPipeline ps2Port2 ps2CmdTestPort2 false false (q ++ t) ↔
      ps2ResetPassed ps2Port1 <:+: q ++ t ∧ ¬ IdentifyReached ps2Port2 (q ++ t) := by
  rw [D.pipeline₁_iff hq hpassed, D.pipeline₂_iff hq, D.resetPassed_iff hq,
    D.identifyReached_iff hq, and_right_comm]
  refine and_iff_left_of_imp fun ⟨_, hnot⟩ hty₂ => ?_
  rcases D.type₂ with ⟨hty, -⟩ | ⟨hsent, -⟩
  · rw [hty] at hty₂
    exact absurd hty₂ (by decide)
  · exact (hnot hsent).elim

end DeviceDialogue

/-- **The pipelines of both ports**, with what the driver's variables say in the
end. -/
def PortPipelines (s' : Ps2State δ) (t : List Ps2Event) : Prop :=
  PortPipeline ps2Port1 ps2CmdTestPort1 s'.port1Works s'.ports.port1Populated t ∧
    PortPipeline ps2Port2 ps2CmdTestPort2 s'.port2Works s'.ports.port2Populated t

/-- Nothing is wrong before the devices. -/
theorem portPipelines_of_ofTests {works : Bool}
    (hs : s'.findings = (works, false, ⟨false, 0#32, false, 0#32⟩)) (ht : ∀ e ∈ t, e.OfTests)
    (hworks : works = true → [.command ps2CmdTestPort1, .received ps2PortTestPassed] <:+: t) :
    PortPipelines s' t := by
  have hs₁ : s'.port1Works = works := congrArg Prod.fst hs
  have hs₂ : s'.port2Works = false := congrArg (fun f => f.2.1) hs
  have hports : s'.ports = ⟨false, 0#32, false, 0#32⟩ := congrArg (fun f => f.2.2) hs
  rw [PortPipelines, hs₁, hs₂, hports]
  exact ⟨pipeline_of_ofTests (by decide) ht hworks, pipeline_of_ofTests (by decide) ht nofun⟩

/-- **The devices** after the tests: both ports keep to the pipeline if port 2 was
found not to work, and, where port 1 was found to work, its device can be reset
and the one at port 2 cannot be asked what it is. -/
theorem ps2InitDevices_pipelines_iff {configByte : BitVec 8} {r : Ps2ErrorCode}
    {q : List Ps2Event} {works₁ works₂ : Bool}
    (hs : s.findings = (works₁, works₂, ⟨false, 0#32, false, 0#32⟩)) (hq : ∀ e ∈ q, e.OfTests)
    (hworks₁ : works₁ = true → [.command ps2CmdTestPort1, .received ps2PortTestPassed] <:+: q)
    (h : (ps2InitDevices dev fuel configByte).Runs s t r s') :
    PortPipelines s' (q ++ t) ↔ works₂ = false ∧
      (works₁ = true →
        ps2ResetPassed ps2Port1 <:+: q ++ t ∧ ¬ IdentifyReached ps2Port2 (q ++ t)) := by
  obtain ⟨hworking, hevents⟩ := ps2InitDevices_confined configByte h
  cases works₂ with
  | true =>
    refine iff_of_false (fun hkept => ?_) fun h => Bool.noConfusion h.1
    have hworks : s'.port2Works = true :=
      (congrArg Prod.snd hworking).trans (congrArg (fun f => f.2.1) hs)
    have htested : .command ps2CmdTestPort2 ∈ q ++ t :=
      (hkept.2.tested hworks).subset List.mem_cons_self
    rcases List.mem_append.mp htested with hmem | hmem
    · rcases hq _ hmem with hcontroller | hcommand
      · exact hcontroller.2 rfl
      · exact absurd hcommand (by decide)
    · exact (hevents _ hmem).2 rfl
  | false =>
    rw [and_iff_right rfl]
    cases works₁ with
    | false =>
      rw [ps2InitDevices, Traced.runs_bind] at h
      obtain ⟨_, _, t₁, _, hget, h, rfl⟩ := h
      obtain ⟨rfl, rfl, rfl⟩ := Traced.runs_gets.mp hget
      rw [Traced.runs_bind] at h
      obtain ⟨_, _, t₁, _, hget, h, rfl⟩ := h
      obtain ⟨rfl, rfl, rfl⟩ := Traced.runs_gets.mp hget
      rw [if_pos ⟨congrArg Prod.fst hs, congrArg (fun f => f.2.1) hs⟩] at h
      obtain ⟨-, rfl, rfl⟩ := Traced.runs_pure.mp h
      refine iff_of_true (portPipelines_of_ofTests hs ?_ nofun) nofun
      simpa using hq
    | true =>
      rw [forall_prop_of_true rfl]
      obtain ⟨D, hs'⟩ := ps2InitDevices_runs hs h
      have hworks : s'.port1Works = true := congrArg Prod.fst hs'
      have hworks₂ : s'.port2Works = false := congrArg (fun f => f.2.1) hs'
      have hports : s'.ports = ⟨true, D.ty₁, false, D.ty₂⟩ := congrArg (fun f => f.2.2) hs'
      rw [PortPipelines, hworks, hworks₂, hports]
      exact D.pipelines_iff hq (hworks₁ rfl)

/-- The events of a test are those of the tests. -/
theorem ofTests_append {q : List Ps2Event} {e : Ps2Event} (hq : ∀ e ∈ q, e.OfTests)
    (he : e.OfController) : ∀ e' ∈ q ++ [.command ps2CmdTestPort1, e], e'.OfTests :=
  List.forall_mem_append.mpr
    ⟨hq, List.forall_mem_cons.mpr ⟨.inr rfl, List.forall_mem_singleton.mpr (.inl he)⟩⟩

/-- The tests, and what follows them. -/
theorem testsRun_pipelines_iff {q : List Ps2Event} {r : Ps2ErrorCode}
    (hs : s.findings = (false, false, ⟨false, 0#32, false, 0#32⟩))
    (hq : ∀ e ∈ q, e.OfController) (h : TestsRun dev fuel s t r s') :
    PortPipelines s' (q ++ t) ↔ PipelineKept (q ++ t) := by
  obtain ⟨configByte, h⟩ := h
  have hq' : ∀ e ∈ q, e.OfTests := fun e he => .inl (hq e he)
  have hqtest : .command ps2CmdTestPort1 ∉ q := fun hmem => (hq _ hmem).1 rfl
  rcases ps2TestPort1_runs h with ⟨hs', rfl⟩ | ⟨v, s₁, t₁, hs₁, h₁, rfl⟩
  · -- There is no answer about port 1.
    refine iff_of_true (portPipelines_of_ofTests (hs'.trans hs)
      (ofTests_append hq' trivial) nofun) ?_
    simp [PipelineKept, following_append_cons hqtest, following]
  have hworks₁ : s.port1Works = false := congrArg Prod.fst hs
  have hworks₂ : s.port2Works = false := congrArg (fun f => f.2.1) hs
  have hports : s.ports = _ := congrArg (fun f => f.2.2) hs
  rw [hworks₁, hworks₂, hports, Bool.false_or] at hs₁
  have hv : decide (v = ps2PortTestPassed) = true →
      [.command ps2CmdTestPort1, .received ps2PortTestPassed] <:+:
        q ++ [.command ps2CmdTestPort1, .received v] := by
    intro hv
    rw [of_decide_eq_true hv]
    exact (List.suffix_append _ _).isInfix
  have hq₁ := ofTests_append (e := .received v) hq' trivial
  have hnot : ∀ {s₁ : Ps2State δ} {t₁}, (ps2InitDevices dev fuel configByte).Runs s₁ t₁ r s' →
      following (.command ps2CmdTestPort1) t₁ = [] := fun hrun =>
    following_of_not_mem fun hmem => ((ps2InitDevices_confined configByte hrun).2 _ hmem).1 rfl
  rcases ps2TestPort2_runs h₁ with h₂ | ⟨hs', rfl⟩ | ⟨v₂, s₂, t₂, hs₂, h₂, rfl⟩
  · -- There is no second port.
    have hiff := ps2InitDevices_pipelines_iff hs₁ hq₁ hv h₂
    rw [List.append_assoc] at hiff
    refine hiff.trans ?_
    simp [PipelineKept, following_append_cons hqtest, hnot h₂]
  · -- There is no answer about port 2.
    have hq₂ := ofTests_append (e := .receiveTimeout) hq₁ trivial
    have hkept := portPipelines_of_ofTests (hs'.trans hs₁) hq₂ fun h =>
      (hv h).trans (List.prefix_append _ _).isInfix
    rw [List.append_assoc] at hkept
    refine iff_of_true hkept ?_
    simp [PipelineKept, following_append_cons hqtest, following]
  · have hworks₁ : s₁.port1Works = decide (v = ps2PortTestPassed) := congrArg Prod.fst hs₁
    have hworks₂ : s₁.port2Works = false := congrArg (fun f => f.2.1) hs₁
    have hports : s₁.ports = _ := congrArg (fun f => f.2.2) hs₁
    rw [hworks₁, hworks₂, hports, Bool.false_or] at hs₂
    have hq₂ := ofTests_append (e := .received v₂) hq₁ trivial
    have hiff := ps2InitDevices_pipelines_iff hs₂ hq₂
      (fun h => (hv h).trans (List.prefix_append _ _).isInfix) h₂
    rw [List.append_assoc, List.append_assoc] at hiff
    refine hiff.trans ?_
    have hfollowing : following (.command ps2CmdTestPort1)
        (.command ps2CmdTestPort1 :: .received v₂ :: t₂) = [.received v₂] := by
      rw [following_cons_self, following_cons_of_ne Ps2Event.noConfusion, hnot h₂]
    simp [PipelineKept, following_append_cons hqtest, hfollowing]

/-- **The port pipeline.** The initialisation keeps to the pipeline of each port in
exactly the dialogues of `PipelineKept`. -/
theorem ps2InitController_pipeline_iff (dev : PortDevice δ) {d : δ} {r : Ps2ErrorCode}
    (h : (ps2InitController dev fuel).Runs (.initial d) t r s') :
    PortPipelines s' t ↔ PipelineKept t := by
  rcases ps2InitController_leadsTo h with ⟨hs', ht⟩ | ⟨s₁, q, u, hs₁, hq, htests, rfl⟩
  · have hfollowing : following (.command ps2CmdTestPort1) t = [] :=
      following_of_not_mem fun hmem => (ht _ hmem).1 rfl
    refine iff_of_true (portPipelines_of_ofTests hs' (fun e he => .inl (ht e he)) nofun) ?_
    simp [PipelineKept, hfollowing]
  · exact testsRun_pipelines_iff hs₁ hq htests

end Pipeline

/-- A controller with bytes to be read, and with the bytes it has for each further
byte that is written to it. -/
def answering : PortDevice (List (BitVec 8) × List (List (BitVec 8))) where
  read port d :=
    if port = ps2Status then (if d.1.isEmpty then 0#8 else 1#8, d)
    else if port = ps2Data then (d.1.headD 0#8, d.1.tail, d.2)
    else (0#8, d)
  write port _ d :=
    if port = ps2Data ∨ port = ps2Command then (d.1 ++ d.2.headD [], d.2.tail) else d

/-- The answers up to the check of the second port. -/
def selfTestAnswers : List (List (BitVec 8)) :=
  [[], [], [0x45#8], [], [], [0x55#8], [], [], []]

/-- The answers of a keyboard that is identified and initialised. -/
def keyboardAnswers : List (List (BitVec 8)) :=
  [[0xfa#8], [0x45#8], [], [], [0xfa#8, 0xab#8, 0x83#8], [], [], [0xfa#8],
    [0xfa#8, 0xfa#8], [0xfa#8, 0xfa#8], [0xfa#8]]

/-- A keyboard at port 1, and no second port. -/
def oneKeyboard : List (List (BitVec 8)) :=
  selfTestAnswers ++ [[0x02#8], [0x00#8], [], [], [], [0xfa#8, 0xaa#8]] ++ keyboardAnswers ++
    (List.replicate ps2MaxResends [[], [0xfe#8]]).flatten

/-- A keyboard at each port. -/
def twoKeyboards : List (List (BitVec 8)) :=
  selfTestAnswers ++ [[0x00#8], [], [], [], [0x00#8], [0x00#8], [], [], [], [],
      [0xfa#8, 0xaa#8], [], [0xfa#8, 0xaa#8]] ++
    keyboardAnswers ++ [[], [0xfa#8], [0x45#8], [], [], [], [0xfa#8, 0xab#8, 0x83#8]]

/-- The keyboard is initialised as the pipeline has it. -/
theorem ps2InitController_pipeline_iff_oneKeyboard :
    ∃ t r s', (ps2InitController answering 2).Runs (.initial ([], oneKeyboard)) t r s' ∧
      PortPipelines s' t := by
  have hanswers : (ps2InitController answering 2 (.initial ([], oneKeyboard))).map
      (fun x => decide (following (.command ps2CmdTestPort1) x.2.2 = [.received ps2PortTestPassed] ∧
        ps2ResetPassed ps2Port1 <:+: x.2.2 ∧
        ¬ [.sent ps2Port2 ps2DevCmdDisableScanning, .received ps2DevAck] <:+: x.2.2))
      = some true := by decide +kernel
  obtain ⟨⟨r, s', t⟩, hrun, hanswers⟩ := Option.map_eq_some_iff.mp hanswers
  obtain ⟨hfollowing, hreset, hrefused⟩ := of_decide_eq_true hanswers
  refine ⟨t, r, s', hrun, (ps2InitController_pipeline_iff answering hrun).mpr ⟨?_, fun _ _ => ?_⟩⟩
  · simp [hfollowing]
  · exact ⟨hreset, fun h => hrefused h.acknowledged⟩

/-- Port 2 counts as working, and its interface test was not made. -/
theorem ps2InitController_twoKeyboards :
    ¬ ∀ t r s', (ps2InitController answering 2).Runs (.initial ([], twoKeyboards)) t r s' →
      PortPipelines s' t := by
  intro h
  have hworks : (ps2InitController answering 2 (.initial ([], twoKeyboards))).map
      (fun x => (x.2.1.port2Works, decide (.command ps2CmdTestPort2 ∈ x.2.2)))
        = some (true, false) := by decide +kernel
  obtain ⟨⟨r, s', t⟩, hrun, hworks⟩ := Option.map_eq_some_iff.mp hworks
  obtain ⟨hworks, htested⟩ := Prod.mk.inj hworks
  have htest := (h t r s' hrun).2.tested hworks
  exact of_decide_eq_false htested (htest.subset List.mem_cons_self)
