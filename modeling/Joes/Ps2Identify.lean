import Joes.Ps2Dialogue

/-!
# The config byte of an identification

`ps2_identify_device` turns the translation of scan codes off before it asks a device
what it is, and restores the config byte of the controller behind the answer. If the
device does not acknowledge the question, it returns before that, and the translation
stays off (`ps2IdentifyDevice_restores_iff`).

The config bytes are read off the dialogue: the one read is received behind the command
to read it, those written are sent behind the command to write them.

Only two parts of an identification have to do with the config byte. It is read and written
without translation before the question, and written as it was after the answer. All other
parts send bytes to the device or receive its answers, and a command that announces a byte for
a device is not one about the config byte (`not_mem_of_ofSend`). So the config bytes read are
one at most, and those written are none, the one without translation, or that one and then the
one read (`ps2IdentifyDevice_configs`). The last one written is the one read exactly if the
question was acknowledged, or if turning the translation off was no change
(`config_and_not_eq`).
-/

/-- The byte that an event sends to the controller. -/
def Ps2Event.sentByte : Ps2Event → Option (BitVec 8)
  | .sent _ v => some v
  | _ => none

/-- **The config bytes read** in a dialogue. -/
def configsRead (t : List Ps2Event) : List (BitVec 8) :=
  (following (.command ps2CmdReadConfigByte) t).filterMap Ps2Event.receivedByte

/-- **The config bytes written** in a dialogue. -/
def configsWritten (t : List Ps2Event) : List (BitVec 8) :=
  (following (.command ps2CmdWriteConfigByte) t).filterMap Ps2Event.sentByte

/-- **The controller accepts the writes** of its config byte: it takes each in time. -/
def AcceptsConfigs (t : List Ps2Event) : Prop :=
  ∀ e ∈ following (.command ps2CmdWriteConfigByte) t, e.sentByte.isSome

instance : DecidablePred AcceptsConfigs := fun _ => List.decidableBAll _ _

/-- **The config byte is as it was read**: none is written, or the last one written is
the one read. -/
def ConfigRestored (t : List Ps2Event) : Prop :=
  ∀ config ∈ (configsWritten t).getLast?, configsRead t = [config]

instance : DecidablePred ConfigRestored := fun _ => Option.decidableForallMem _

/-- The device acknowledges that it is asked what it is. -/
def ps2IdentifyAcknowledged (port : BitVec 8) : List Ps2Event :=
  [.sent port ps2DevCmdIdentify, .received ps2DevAck]

section Identify

variable {δ : Type} {dev : PortDevice δ} {fuel : ℕ} {s s' : Ps2State δ} {t : List Ps2Event}
  {port data config : BitVec 8} {deviceType : BitVec 32}

/-- Sending a byte to a device is no command about the config byte. -/
theorem not_mem_of_ofSend {c : BitVec 8} (ht : ∀ e ∈ t, e.OfSend port data)
    (hc : c ≠ ps2CmdSendNextByteToPort2) : .command c ∉ t := fun h => hc (ht _ h)

/-- A byte for the controller is sent, or is not taken. -/
theorem ps2RawSendByte_portCmd {r : Ps2ErrorCode}
    (h : (ps2RawSendByte dev fuel ps2PortCmd data).Runs s t r s') :
    t = [.sent ps2PortCmd data] ∨ t = [.sendTimeout ps2PortCmd data] :=
  (ps2RawSendByte_runs h).2.imp And.right And.right

/-- **A config byte that is written** and accepted. -/
theorem following_writeConfig {q u : List Ps2Event} {r : Ps2ErrorCode}
    (hq : .command ps2CmdWriteConfigByte ∉ q)
    (h : (ps2RawSendByte dev fuel ps2PortCmd data).Runs s t r s')
    (hconfig : AcceptsConfigs (q ++ .command ps2CmdWriteConfigByte :: (t ++ u))) :
    t = [.sent ps2PortCmd data]
      ∧ following (.command ps2CmdWriteConfigByte)
          (q ++ .command ps2CmdWriteConfigByte :: (t ++ u))
        = .sent ps2PortCmd data :: following (.command ps2CmdWriteConfigByte) u := by
  rcases ps2RawSendByte_portCmd h with rfl | rfl
  · exact ⟨rfl, following_append_cons hq Ps2Event.noConfusion⟩
  · have hfollowing : following (.command ps2CmdWriteConfigByte)
        (q ++ .command ps2CmdWriteConfigByte :: ([.sendTimeout ps2PortCmd data] ++ u))
        = .sendTimeout ps2PortCmd data :: following (.command ps2CmdWriteConfigByte) u :=
      following_append_cons hq Ps2Event.noConfusion
    have hsent := hconfig (.sendTimeout ps2PortCmd data)
    rw [hfollowing] at hsent
    cases hsent List.mem_cons_self

/-- **The answer to the question** and the config byte behind it, which is restored. -/
theorem ps2RequestDeviceType_configs {r : Ps2ErrorCode × BitVec 32}
    (h : (ps2RequestDeviceType dev fuel port deviceType config).Runs s t r s')
    (hconfig : AcceptsConfigs t) :
    (ps2IdentifyAcknowledged port <:+: t ∧ configsWritten t = [config] ∨
        ¬ ps2IdentifyAcknowledged port <:+: t ∧ configsWritten t = [])
      ∧ .command ps2CmdReadConfigByte ∉ t := by
  have hshown : ∀ {r₁ s₁ t₁}, (ps2SendByte dev fuel port ps2DevCmdIdentify).Runs s t₁ r₁ s₁ →
      (ps2IdentifyAcknowledged port <:+: t₁ ↔ r₁ = .ok) := by
    intro r₁ s₁ t₁ hsend
    have hshown := ps2SendByteAttempts_shown (p := []) (u := []) (by decide) hsend List.not_mem_nil
    rwa [List.append_nil, and_iff_left List.nil_prefix] at hshown
  cases ps2RequestDeviceType_cases h with
  | noAck hsend =>
    obtain ⟨-, ht₁⟩ := ps2SendByte_confined hsend
    have hwrite : .command ps2CmdWriteConfigByte ∉ t := not_mem_of_ofSend ht₁ (by decide)
    refine ⟨.inr ⟨fun hack => ?_, ?_⟩, not_mem_of_ofSend ht₁ (by decide)⟩
    · cases (hshown hsend).mp hack
    · rw [configsWritten, following_of_not_mem hwrite]
      rfl
  | @answered t₁ t₂ t₃ ty _ _ _ _ _ hsend hreceive _ hraw =>
    obtain ⟨-, ht₁⟩ := ps2SendByte_confined hsend
    obtain ⟨-, ht₂⟩ := ps2ReceiveDeviceType_confined (E := fun e => ∀ c, e ≠ .command c)
      (fun _ _ => Ps2Event.noConfusion) (fun _ => Ps2Event.noConfusion) hreceive
    have hbefore : ∀ c, c ≠ ps2CmdSendNextByteToPort2 →
        .command c ∉ t₁ ++ (t₂ ++ [Ps2Event.identified port ty]) := by
      intro c hc hmem
      rcases List.mem_append.mp hmem with hmem | hmem
      · exact not_mem_of_ofSend ht₁ hc hmem
      rcases List.mem_append.mp hmem with hmem | hmem
      · exact ht₂ _ hmem c rfl
      · cases List.mem_singleton.mp hmem
    have htrace : t₁ ++ (t₂ ++ .identified port ty :: .command ps2CmdWriteConfigByte :: t₃)
        = t₁ ++ (t₂ ++ [Ps2Event.identified port ty])
          ++ .command ps2CmdWriteConfigByte :: (t₃ ++ []) := by simp
    rw [htrace] at hconfig ⊢
    obtain ⟨rfl, hfollowing⟩ := following_writeConfig (hbefore _ (by decide)) hraw hconfig
    refine ⟨.inl ⟨?_, ?_⟩, ?_⟩
    · refine ((hshown hsend).mpr rfl).trans ?_
      rw [List.append_assoc]
      exact (List.prefix_append _ _).isInfix
    · rw [configsWritten, hfollowing]
      rfl
    · refine fun hmem => (List.mem_append.mp hmem).elim (hbefore _ (by decide)) fun hmem => ?_
      simp [ps2CmdReadConfigByte, ps2CmdWriteConfigByte] at hmem

/-- The config byte without translation is another one if there was translation. -/
theorem config_and_not_eq (config : BitVec 8) :
    config &&& ~~~(1#8 <<< 6) = config ↔ config.getLsbD 6 = false := by
  revert config
  decide

/-- **The config bytes of a dialogue** that reads one, writes another one and goes on. -/
theorem configs_of_parts {t₁ t₂ : List Ps2Event} {config' : BitVec 8} (config : BitVec 8)
    (hwrite : .command ps2CmdWriteConfigByte ∉ t₁) (hread : .command ps2CmdReadConfigByte ∉ t₁)
    (hsent : .sent port ps2DevCmdIdentify ∉ t₁) (hconfig' : ps2DevCmdIdentify ≠ config')
    (hread' : .command ps2CmdReadConfigByte ∉ t₂) :
    let t := t₁ ++ .command ps2CmdReadConfigByte :: .received config
      :: .command ps2CmdWriteConfigByte :: .sent ps2PortCmd config' :: t₂
    configsRead t = [config] ∧ configsWritten t = config' :: configsWritten t₂
      ∧ (ps2IdentifyAcknowledged port <:+: t ↔ ps2IdentifyAcknowledged port <:+: t₂) := by
  have hne : ps2CmdReadConfigByte ≠ ps2CmdWriteConfigByte := by decide
  refine ⟨?_, ?_, ?_⟩
  · have hrest : .command ps2CmdReadConfigByte ∉ .command ps2CmdWriteConfigByte
        :: .sent ps2PortCmd config' :: t₂ := by simp [hne, hread']
    rw [configsRead, following_append_cons hread Ps2Event.noConfusion, following_of_not_mem hrest]
    rfl
  · have hbefore : .command ps2CmdWriteConfigByte ∉
        t₁ ++ [.command ps2CmdReadConfigByte, .received config] := by simp [hwrite, hne.symm]
    have happend : following (.command ps2CmdWriteConfigByte)
        (t₁ ++ [.command ps2CmdReadConfigByte, .received config]
          ++ .command ps2CmdWriteConfigByte :: .sent ps2PortCmd config' :: t₂)
        = .sent ps2PortCmd config' :: following (.command ps2CmdWriteConfigByte) t₂ :=
      following_append_cons hbefore Ps2Event.noConfusion
    rw [List.append_assoc] at happend
    exact congrArg (List.filterMap Ps2Event.sentByte) happend
  · have hquestion : .sent port ps2DevCmdIdentify ∉ t₁ ++ [.command ps2CmdReadConfigByte,
        .received config, .command ps2CmdWriteConfigByte, .sent ps2PortCmd config'] := by
      simp [hsent, hconfig']
    have happend : ps2IdentifyAcknowledged port <:+: t₁ ++ [.command ps2CmdReadConfigByte,
          .received config, .command ps2CmdWriteConfigByte, .sent ps2PortCmd config'] ++ t₂
        ↔ ps2IdentifyAcknowledged port <:+: t₂ := infix_append_of_not_mem hquestion
    rwa [List.append_assoc] at happend

/-- **The config bytes of an identification**: none is read and written, or the one that
is read is written without translation, and as it was if the question is acknowledged. -/
theorem ps2IdentifyDevice_configs {r : Ps2ErrorCode × BitVec 32}
    (h : (ps2IdentifyDevice dev fuel port deviceType).Runs s t r s')
    (hconfig : AcceptsConfigs t) :
    configsRead t = [] ∧ configsWritten t = [] ∨ ∃ config, configsRead t = [config] ∧
      (ps2IdentifyAcknowledged port <:+: t
          ∧ configsWritten t = [config &&& ~~~(1#8 <<< 6), config] ∨
        ¬ ps2IdentifyAcknowledged port <:+: t
          ∧ configsWritten t = [config &&& ~~~(1#8 <<< 6)]) := by
  have hsent : ∀ {r₁ s₀ s₁ t₁},
      (ps2SendByte dev fuel port ps2DevCmdDisableScanning).Runs s₀ t₁ r₁ s₁ →
        .command ps2CmdWriteConfigByte ∉ t₁ ∧ .command ps2CmdReadConfigByte ∉ t₁ := by
    intro r₁ s₀ s₁ t₁ hsend
    obtain ⟨-, ht₁⟩ := ps2SendByte_confined hsend
    exact ⟨not_mem_of_ofSend ht₁ (by decide), not_mem_of_ofSend ht₁ (by decide)⟩
  cases ps2IdentifyDevice_cases h with
  | noAck _ hsend =>
    obtain ⟨hwrite, hread⟩ := hsent hsend
    rw [configsRead, following_of_not_mem hread, configsWritten, following_of_not_mem hwrite]
    exact .inl ⟨rfl, rfl⟩
  | noConfig _ hsend _ =>
    obtain ⟨hwrite, hread⟩ := hsent hsend
    rw [configsRead, following_append_of_not_mem hread, configsWritten,
      following_append_of_not_mem hwrite]
    exact .inl ⟨rfl, rfl⟩
  | @requested t₁ t₂ t₃ config _ _ _ _ _ _ _ _ hsend _ hraw hrequest =>
    obtain ⟨hwrite, hread⟩ := hsent hsend
    obtain ⟨-, -, -, hidentify, -⟩ := sendDisableScanning_runs hsend
    have hbefore : .command ps2CmdWriteConfigByte ∉
        t₁ ++ [.command ps2CmdReadConfigByte, .received config] := by
      have hne : ps2CmdWriteConfigByte ≠ ps2CmdReadConfigByte := by decide
      simp [hwrite, hne]
    have htrace : t₁ ++ .command ps2CmdReadConfigByte :: .received config
          :: .command ps2CmdWriteConfigByte :: (t₂ ++ t₃)
        = t₁ ++ [.command ps2CmdReadConfigByte, .received config]
          ++ .command ps2CmdWriteConfigByte :: (t₂ ++ t₃) := by simp
    rw [htrace] at hconfig
    obtain ⟨rfl, hfollowing⟩ := following_writeConfig hbefore hraw hconfig
    obtain ⟨hanswer, hnoRead⟩ := ps2RequestDeviceType_configs hrequest fun e he => hconfig e <| by
      rw [hfollowing]
      exact List.mem_cons_of_mem _ he
    -- The byte written is not the question, which has the bit for translation set.
    have hquestion : ps2DevCmdIdentify ≠ config &&& ~~~(1#8 <<< 6) := by
      clear * -
      revert config
      decide
    obtain ⟨hconfigs, hwritten, hack⟩ := configs_of_parts config
      hwrite hread hidentify hquestion hnoRead
    refine .inr ⟨config, hconfigs, hanswer.imp ?_ ?_⟩
    · rintro ⟨hacknowledged, hlast⟩
      exact ⟨hack.mpr hacknowledged, hwritten.trans (congrArg _ hlast)⟩
    · rintro ⟨hnot, hlast⟩
      exact ⟨mt hack.mp hnot, hwritten.trans (congrArg _ hlast)⟩

/-- **An identification restores the config byte** exactly if there is no translation to
turn off, or the device acknowledges the question. -/
theorem ps2IdentifyDevice_restores_iff {r : Ps2ErrorCode × BitVec 32}
    (h : (ps2IdentifyDevice dev fuel port deviceType).Runs s t r s')
    (hconfig : AcceptsConfigs t) :
    ConfigRestored t ↔ ∀ config ∈ configsRead t,
      config.getLsbD 6 = false ∨ ps2IdentifyAcknowledged port <:+: t := by
  rw [ConfigRestored]
  rcases ps2IdentifyDevice_configs h hconfig with ⟨hread, hwritten⟩ | ⟨config, hread, hanswer⟩
  · rw [hread, hwritten]
    exact iff_of_true (fun _ h => by cases h) (List.forall_mem_nil _)
  · rw [hread, List.forall_mem_singleton]
    rcases hanswer with ⟨hack, hwritten⟩ | ⟨hnot, hwritten⟩
    · rw [hwritten]
      exact iff_of_true (fun c hc => by simpa using hc) (.inr hack)
    · rw [hwritten, or_iff_left hnot, ← config_and_not_eq]
      simp [eq_comm]

end Identify

/-! ## A controller with a device -/

/-- A controller: what it has to deliver, its config byte, and whether the next byte
written is that one. -/
structure Ps2Controller where
  pending : List (BitVec 8)
  config : BitVec 8
  writesConfig : Bool
  deriving DecidableEq

/-- A controller with a device that acknowledges everything, but answers the question
what it is in its own way. -/
def identifying (answer : List (BitVec 8)) : PortDevice Ps2Controller where
  read port d :=
    if port = ps2Status then (if d.pending = [] then 0#8 else 1#8, d)
    else (d.pending.headD 0#8, { d with pending := d.pending.tail })
  write port v d :=
    if port = ps2Command then
      if v = ps2CmdReadConfigByte then { d with pending := d.pending ++ [d.config] }
      else { d with writesConfig := v = ps2CmdWriteConfigByte }
    else if d.writesConfig then { d with config := v, writesConfig := false }
    else if v = ps2DevCmdIdentify then { d with pending := d.pending ++ answer }
    else { d with pending := d.pending ++ [ps2DevAck] }

/-- A keyboard is identified, and scan codes are translated as before. -/
theorem ps2IdentifyDevice_restores_keyboard :
    ∃ t s', (ps2IdentifyDevice (identifying [ps2DevAck, 0xab#8, 0x83#8]) 1 ps2Port1 0#32).Runs
        (.initial ⟨[], 0x47#8, false⟩) t (.ok, ps2KbdMf2_1) s'
      ∧ s'.device.config = 0x47#8 ∧ ConfigRestored t := by
  have hanswers : (ps2IdentifyDevice (identifying [ps2DevAck, 0xab#8, 0x83#8]) 1 ps2Port1 0#32
      (.initial ⟨[], 0x47#8, false⟩)).map (fun x => (x.1, x.2.1.device.config,
        decide (AcceptsConfigs x.2.2 ∧ ps2IdentifyAcknowledged ps2Port1 <:+: x.2.2)))
      = some ((.ok, ps2KbdMf2_1), 0x47#8, true) := by decide +kernel
  obtain ⟨⟨r, s', t⟩, hrun, hanswers⟩ := Option.map_eq_some_iff.mp hanswers
  obtain ⟨rfl, hanswers⟩ := Prod.mk.inj hanswers
  obtain ⟨hconfig, hdialogue⟩ := Prod.mk.inj hanswers
  obtain ⟨haccepts, hack⟩ := of_decide_eq_true hdialogue
  exact ⟨t, s', hrun, hconfig,
    (ps2IdentifyDevice_restores_iff hrun haccepts).mpr fun _ _ => .inr hack⟩

/-- **Translation is left off** for a device that refuses the question. -/
theorem ps2IdentifyDevice_not_restored :
    ∃ t s', (ps2IdentifyDevice (identifying [0xfc#8]) 1 ps2Port1 0#32).Runs
        (.initial ⟨[], 0x47#8, false⟩) t (.errorNoAck, 0#32) s'
      ∧ AcceptsConfigs t ∧ s'.device.config = 0x07#8 ∧ ¬ ConfigRestored t := by
  have hanswers : (ps2IdentifyDevice (identifying [0xfc#8]) 1 ps2Port1 0#32
      (.initial ⟨[], 0x47#8, false⟩)).map (fun x => (x.1, x.2.1.device.config,
        decide (AcceptsConfigs x.2.2 ∧ ¬ ConfigRestored x.2.2)))
      = some ((.errorNoAck, 0#32), 0x07#8, true) := by decide +kernel
  obtain ⟨⟨r, s', t⟩, hrun, hanswers⟩ := Option.map_eq_some_iff.mp hanswers
  obtain ⟨rfl, hanswers⟩ := Prod.mk.inj hanswers
  obtain ⟨hconfig, hdialogue⟩ := Prod.mk.inj hanswers
  obtain ⟨haccepts, hnot⟩ := of_decide_eq_true hdialogue
  exact ⟨t, s', hrun, haccepts, hconfig, hnot⟩
