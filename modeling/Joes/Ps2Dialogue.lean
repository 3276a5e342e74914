import Joes.Ps2

/-!
# What the dialogue shows

The result of sending a byte, of a reset and of an identification can be read
off the dialogue. A byte was accepted if an acknowledgement directly follows it
(`ps2SendByteAttempts_shown`), a reset succeeded if the answer to its
acknowledged byte is that the self test was passed (`ps2ResetDevice_runs`), and
an identify command was written if the device acknowledged the byte before it,
the controller delivered its configuration and took the command in one of the
attempts (`ps2IdentifyDevice_runs`).

A result is a value that the driver has, and the dialogue is what the device sees, so this is
about what a run of the driver must have sent and received to come to its result. The attempts
to send a byte are taken one at a time. One that fails is announced, perhaps sent, and not
acknowledged (`FailedAttempt`), so it cannot be mistaken for the acknowledgement that is looked
for, and what is shown of the attempts after it is shown of all of them
(`ps2SendByteAttempts_succ`).

For the longer exchanges it matters that what comes after the part in question does not show
the same thing again. Therefore each part has its kinds of events (`Ps2Event.OfReset`,
`Ps2Event.OfAnswer`, `Ps2Event.OfIdentify`), and the exchange is cut where it may end: into the
ways a request for the type goes (`RequestRun`), and those an identification goes
(`IdentifyRun`).
-/

section Dialogue

variable {δ : Type} {dev : PortDevice δ} {fuel : ℕ} {s s' : Ps2State δ} {t u p : List Ps2Event}
  {port data : BitVec 8} {n : ℕ}

/-- No byte is sent by announcing one. -/
theorem not_mem_announcement {e : Ps2Event} (h : ∀ c, e ≠ .command c) :
    e ∉ ps2Announcement port := by
  unfold ps2Announcement
  split
  · exact fun hmem => h _ (List.mem_singleton.mp hmem)
  · exact List.not_mem_nil

/-- **An attempt** to send a byte that comes to nothing. -/
inductive FailedAttempt (port data : BitVec 8) : List Ps2Event → Prop where
  /-- The controller does not take the byte. -/
  | sendTimeout : FailedAttempt port data (ps2Announcement port ++ [.sendTimeout port data])
  /-- There is no answer. -/
  | receiveTimeout :
      FailedAttempt port data (ps2Announcement port ++ [.sent port data, .receiveTimeout])
  /-- The answer is no acknowledgement. -/
  | refused {v : BitVec 8} (h : v ≠ ps2DevAck) :
      FailedAttempt port data (ps2Announcement port ++ [.sent port data, .received v])

/-- **The attempts**: one fails and the others follow, or it is acknowledged. -/
theorem ps2SendByteAttempts_succ {r : Ps2ErrorCode} (hdata : data ≠ ps2DevCmdEcho)
    (h : (ps2SendByteAttempts dev fuel port data (n + 1)).Runs s t r s') :
    (∃ s₁ t₁ t₂, FailedAttempt port data t₁ ∧
        (ps2SendByteAttempts dev fuel port data n).Runs s₁ t₂ r s' ∧ t = t₁ ++ t₂) ∨
      r = .ok ∧ t = ps2Announcement port ++ [.sent port data, .received ps2DevAck] := by
  rw [ps2SendByteAttempts, Traced.runs_bind] at h
  obtain ⟨result, s₁, t₁, t₂, hsend, h, rfl⟩ := h
  obtain ⟨-, ⟨rfl, rfl⟩ | ⟨rfl, rfl⟩⟩ := ps2RawSendByte_runs hsend
  · rw [if_neg (not_not.mpr rfl), Traced.runs_bind] at h
    obtain ⟨_, s₂, t₃, t₄, hreceive, h, rfl⟩ := h
    obtain ⟨-, ⟨v, rfl, rfl⟩ | ⟨rfl, rfl⟩⟩ := ps2ReceiveByte_runs hreceive
    · dsimp only at h
      rw [if_neg (not_not.mpr rfl)] at h
      have hrefused : ∀ {s₂}, v ≠ ps2DevAck →
          (ps2SendByteAttempts dev fuel port data n).Runs s₂ t₄ r s' →
          ∃ s₁ t₁ t₂, FailedAttempt port data t₁ ∧
            (ps2SendByteAttempts dev fuel port data n).Runs s₁ t₂ r s' ∧
            ps2Announcement port ++ [.sent port data] ++ ([.received v] ++ t₄) = t₁ ++ t₂ :=
        fun hv h => ⟨_, _, t₄, .refused hv, h, by simp⟩
      split at h
      · next hresend =>
        refine .inl (hrefused ?_ h)
        rw [hresend]
        decide
      · split at h
        · next hack =>
          obtain ⟨rfl, rfl, rfl⟩ := Traced.runs_pure.mp h
          refine .inr ⟨rfl, ?_⟩
          rw [hack]
          simp
        · next hack =>
          rw [if_neg fun hecho => hdata hecho.2] at h
          exact .inl (hrefused hack h)
    · exact .inl ⟨s₂, _, t₄, .receiveTimeout, h, by simp⟩
  · exact .inl ⟨s₁, _, t₂, .sendTimeout, h, rfl⟩

/-- Sending a byte succeeds or is given up. -/
theorem ps2SendByteAttempts_result {r : Ps2ErrorCode} (hdata : data ≠ ps2DevCmdEcho)
    (h : (ps2SendByteAttempts dev fuel port data n).Runs s t r s') : r = .ok ∨ r = .errorNoAck := by
  induction n generalizing s t with
  | zero => exact .inr (Traced.runs_pure.mp h).1.symm
  | succ n ih =>
    rcases ps2SendByteAttempts_succ hdata h with ⟨s₁, t₁, t₂, -, hrest, -⟩ | ⟨hok, -⟩
    · exact ih hrest
    · exact .inl hok

/-- **A byte is accepted** exactly if an acknowledgement directly follows it, and
the dialogue goes on from there. -/
theorem ps2SendByteAttempts_shown {r : Ps2ErrorCode} (hdata : data ≠ ps2DevCmdEcho)
    (h : (ps2SendByteAttempts dev fuel port data n).Runs s t r s') (hu : .sent port data ∉ u) :
    .sent port data :: .received ps2DevAck :: p <:+: t ++ u ↔ r = .ok ∧ p <+: u := by
  have hannounce : .sent port data ∉ ps2Announcement port :=
    not_mem_announcement fun _ => Ps2Event.noConfusion
  induction n generalizing s t with
  | zero =>
    obtain ⟨rfl, -, rfl⟩ := Traced.runs_pure.mp h
    exact iff_of_false (not_infix_of_not_mem hu) fun h => by cases h.1
  | succ n ih =>
    rcases ps2SendByteAttempts_succ hdata h with ⟨s₁, t₁, t₂, hfailed, hrest, rfl⟩ | ⟨rfl, rfl⟩
    · refine Iff.trans ?_ (ih hrest)
      cases hfailed with
      | sendTimeout =>
        rw [List.append_assoc, List.append_assoc, infix_append_of_not_mem hannounce]
        exact infix_append_of_not_mem (by simp)
      | receiveTimeout =>
        rw [List.append_assoc, List.append_assoc, infix_append_of_not_mem hannounce]
        simp [List.infix_cons_iff, List.cons_prefix_cons]
      | refused hv =>
        rw [List.append_assoc, List.append_assoc, infix_append_of_not_mem hannounce]
        simp [List.infix_cons_iff, List.cons_prefix_cons, Ne.symm hv]
    · rw [List.append_assoc, infix_append_of_not_mem hannounce]
      simp [List.infix_cons_iff, List.cons_prefix_cons, not_infix_of_not_mem hu]

/-- **A byte is written** unless the controller does not take it in any of the
attempts. -/
theorem ps2SendByteAttempts_sent_iff {r : Ps2ErrorCode} (hdata : data ≠ ps2DevCmdEcho)
    (h : (ps2SendByteAttempts dev fuel port data n).Runs s t r s') :
    (.sent port data ∈ t ↔ t.count (.sendTimeout port data) < n) ∧
      t.count (.sendTimeout port data) ≤ n ∧ (r = .ok → .sent port data ∈ t) := by
  have hannounce : (ps2Announcement port).count (.sendTimeout port data) = 0 :=
    List.count_eq_zero.mpr (not_mem_announcement fun _ => Ps2Event.noConfusion)
  induction n generalizing s t with
  | zero =>
    obtain ⟨rfl, -, rfl⟩ := Traced.runs_pure.mp h
    exact ⟨by simp, by simp, fun h => by cases h⟩
  | succ n ih =>
    rcases ps2SendByteAttempts_succ hdata h with ⟨s₁, t₁, t₂, hfailed, hrest, rfl⟩ | ⟨rfl, rfl⟩
    · obtain ⟨hiff, hle, hok⟩ := ih hrest
      rw [List.count_append, List.mem_append]
      cases hfailed with
      | sendTimeout =>
        have hnot : .sent port data ∉
            ps2Announcement port ++ [Ps2Event.sendTimeout port data] := by
          rw [List.mem_append, not_or]
          exact ⟨not_mem_announcement fun _ => Ps2Event.noConfusion, by simp⟩
        rw [or_iff_right hnot, hiff, List.count_append, hannounce, List.count_singleton_self]
        exact ⟨by omega, by omega, fun hr => hiff.mp (hok hr)⟩
      | receiveTimeout | refused _ =>
        rw [List.count_append, hannounce]
        simp
        omega
    · rw [List.count_append, hannounce]
      simp

/-- The dialogue of a reset that succeeds. -/
def ps2ResetPassed (port : BitVec 8) : List Ps2Event :=
  [.sent port ps2DevCmdReset, .received ps2DevAck, .received ps2DevSelftestPassed]

/-- The events of a reset. -/
def Ps2Event.OfReset (port : BitVec 8) : Ps2Event → Prop
  | .command c => c = ps2CmdSendNextByteToPort2
  | .sent p d | .sendTimeout p d => p = port ∧ d = ps2DevCmdReset
  | .received _ | .receiveTimeout => True
  | .reset p _ => p = port
  | _ => False

theorem ofReset_of_ofSend (port : BitVec 8) (e : Ps2Event) (he : e.OfSend port ps2DevCmdReset) :
    e.OfReset port := by
  cases e with
  | command c => exact he
  | sent p d | sendTimeout p d => exact he
  | received v => trivial
  | receiveTimeout => trivial
  | _ => exact he.elim

/-- **A reset** succeeds exactly if the device answers it so. -/
theorem ps2ResetExchange_shown {r : Ps2ErrorCode} {e : Ps2Event}
    (h : (ps2ResetExchange dev fuel port).Runs s t r s')
    (hu : .sent port ps2DevCmdReset ∉ e :: u) :
    ps2ResetPassed port <:+: t ++ e :: u ↔ r = .ok := by
  rw [ps2ResetExchange, Traced.runs_bind] at h
  obtain ⟨result, s₁, t₁, t₂, hsend, h, rfl⟩ := h
  have hshown : ∀ {u'}, .sent port ps2DevCmdReset ∉ u' →
      (ps2ResetPassed port <:+: t₁ ++ u' ↔
        result = .ok ∧ [.received ps2DevSelftestPassed] <+: u') :=
    fun hu' => ps2SendByteAttempts_shown (by decide) hsend hu'
  split at h
  · next hno =>
    obtain ⟨rfl, -, rfl⟩ := Traced.runs_pure.mp h
    rw [List.append_nil, hshown hu, hno]
    exact iff_of_false (fun h => by cases h.1) Ps2ErrorCode.noConfusion
  · next hno =>
    have hok : result = .ok := (ps2SendByteAttempts_result (by decide) hsend).resolve_right hno
    rw [Traced.runs_bind] at h
    obtain ⟨_, s₂, t₃, t₄, hreceive, h, rfl⟩ := h
    obtain ⟨-, ⟨v, rfl, rfl⟩ | ⟨rfl, rfl⟩⟩ := ps2ReceiveByte_runs hreceive <;> dsimp only at h
    · rw [if_neg Ps2ErrorCode.noConfusion] at h
      have hr : [] = t₄ ∧ (r = .ok ↔ v = ps2DevSelftestPassed) := by
        split at h
        · next hv =>
          obtain ⟨rfl, -, rfl⟩ := Traced.runs_pure.mp h
          exact ⟨rfl, iff_of_true rfl hv⟩
        · next hv =>
          obtain ⟨rfl, -, rfl⟩ := Traced.runs_pure.mp h
          exact ⟨rfl, iff_of_false Ps2ErrorCode.noConfusion hv⟩
      obtain ⟨rfl, hr⟩ := hr
      rw [List.append_nil, List.append_assoc, hshown (by simpa using hu), hr]
      simp [hok, List.cons_prefix_cons, eq_comm]
    · rw [if_pos rfl] at h
      obtain ⟨rfl, -, rfl⟩ := Traced.runs_pure.mp h
      rw [List.append_nil, List.append_assoc, hshown (by simpa using hu)]
      simp [List.cons_prefix_cons]

theorem ps2ResetExchange_confined :
    (ps2ResetExchange dev fuel port).Confined Ps2State.variables
      (Ps2Event.OfSend port ps2DevCmdReset) :=
  .bind ps2SendByte_confined fun _ => .ite .pure
    (.bind (ps2ReceiveByte_confined (fun _ => trivial) trivial) fun _ =>
      .ite .pure (.ite .pure .pure))

/-- **What a reset does**: it changes no variable, and the dialogue shows its
result. -/
theorem ps2ResetDevice_runs {r : Ps2ErrorCode}
    (h : (ps2ResetDevice dev fuel port).Runs s t r s') :
    s'.variables = s.variables ∧ (∀ e ∈ t, e.OfReset port) ∧
      (∀ r', .reset port r' ∈ t ↔ r' = r) ∧
      ∀ u, .sent port ps2DevCmdReset ∉ u → (ps2ResetPassed port <:+: t ++ u ↔ r = .ok) := by
  rw [ps2ResetDevice, Traced.runs_bind] at h
  obtain ⟨result, s₁, t₁, t₂, hexchange, h, rfl⟩ := h
  rw [Traced.runs_bind] at h
  obtain ⟨_, s₂, t₃, t₄, hemit, h, rfl⟩ := h
  obtain ⟨rfl, rfl⟩ := Traced.runs_emit.mp hemit
  obtain ⟨rfl, rfl, rfl⟩ := Traced.runs_pure.mp h
  obtain ⟨hs, ht₁⟩ := ps2ResetExchange_confined hexchange
  refine ⟨hs, ?_, fun r' => ?_, fun u hu => ?_⟩
  · exact List.forall_mem_append.mpr ⟨fun e he => ofReset_of_ofSend port e (ht₁ e he),
      List.forall_mem_singleton.mpr rfl⟩
  · have hnot : .reset port r' ∉ t₁ := fun hmem => ht₁ _ hmem
    simp [hnot]
  · rw [List.append_assoc]
    exact ps2ResetExchange_shown hexchange (by simpa using hu)

/-- The events of an identification. -/
def Ps2Event.OfIdentify (port : BitVec 8) : Ps2Event → Prop
  | .command c =>
    c = ps2CmdSendNextByteToPort2 ∨ c = ps2CmdReadConfigByte ∨ c = ps2CmdWriteConfigByte
  | .sent p d | .sendTimeout p d =>
    p = ps2PortCmd ∨ p = port ∧ (d = ps2DevCmdDisableScanning ∨ d = ps2DevCmdIdentify)
  | .received _ | .receiveTimeout => True
  | .identified p _ => p = port
  | _ => False

/-- The events of an identification once the identify command was taken. -/
def Ps2Event.OfAnswer (port : BitVec 8) : Ps2Event → Prop
  | .command c => c = ps2CmdSendNextByteToPort2 ∨ c = ps2CmdWriteConfigByte
  | .sent p _ | .sendTimeout p _ => p = ps2PortCmd
  | .received _ | .receiveTimeout => True
  | .identified p _ => p = port
  | _ => False

theorem ofAnswer_of_ofSend (port : BitVec 8) (e : Ps2Event) (he : e.OfSend ps2PortCmd data) :
    e.OfAnswer port := by
  cases e with
  | command c => exact .inl he
  | sent p d | sendTimeout p d => exact he.1
  | received v => trivial
  | receiveTimeout => trivial
  | _ => exact he.elim

/-- Nothing is sent to the device any more. -/
theorem count_sendTimeout_of_ofAnswer (data : BitVec 8) (hport : port ≠ ps2PortCmd)
    (ht : ∀ e ∈ t, e.OfAnswer port) : t.count (.sendTimeout port data) = 0 :=
  List.count_eq_zero.mpr fun he => hport (ht _ he)

theorem ofIdentify_of_ofAnswer (e : Ps2Event) (he : e.OfAnswer port) : e.OfIdentify port := by
  cases e with
  | command c => exact he.imp_right .inr
  | sent p d | sendTimeout p d => exact .inl he
  | received v => trivial
  | receiveTimeout => trivial
  | identified p ty => exact he
  | _ => exact he.elim

theorem ofIdentify_of_ofSend (port : BitVec 8)
    (h : data = ps2DevCmdDisableScanning ∨ data = ps2DevCmdIdentify) (e : Ps2Event)
    (he : e.OfSend port data) : e.OfIdentify port := by
  cases e with
  | command c => exact .inl he
  | sent p d | sendTimeout p d => exact .inr ⟨he.1, he.2 ▸ h⟩
  | received v => trivial
  | receiveTimeout => trivial
  | _ => exact he.elim

theorem ps2ReceiveDeviceType_confined {E : Ps2Event → Prop} (h : ∀ v, E (.received v))
    (h' : E .receiveTimeout) : (ps2ReceiveDeviceType dev).Confined Ps2State.variables E :=
  .bind (ps2ReceiveByte_confined h h') fun _ => .ite
    (.bind (ps2ReceiveByte_confined h h') fun _ => .ite .pure .pure) .pure

section Request

variable (dev fuel port)

/-- **How a request for the type of a device goes**: the identify command is not
acknowledged, or the type is received and the config byte written. -/
inductive RequestRun (deviceType : BitVec 32) (config : BitVec 8) (s : Ps2State δ) :
    List Ps2Event → Ps2ErrorCode × BitVec 32 → Ps2State δ → Prop where
  /-- The command is not acknowledged. -/
  | noAck {t : List Ps2Event} {s' : Ps2State δ}
      (hsend : (ps2SendByte dev fuel port ps2DevCmdIdentify).Runs s t .errorNoAck s') :
      RequestRun deviceType config s t (.errorNoAck, deviceType) s'
  /-- It is. -/
  | answered {t₁ t₂ t₃ : List Ps2Event} {ty : BitVec 32} {r : Ps2ErrorCode}
      {s₁ s₂ s₃ s' : Ps2State δ}
      (hsend : (ps2SendByte dev fuel port ps2DevCmdIdentify).Runs s t₁ .ok s₁)
      (hreceive : (ps2ReceiveDeviceType dev).Runs s₁ t₂ ty s₂)
      (hs₃ : s₃.variables = s₂.variables)
      (hraw : (ps2RawSendByte dev fuel ps2PortCmd config).Runs s₃ t₃ r s') :
      RequestRun deviceType config s
        (t₁ ++ (t₂ ++ .identified port ty :: .command ps2CmdWriteConfigByte :: t₃)) (.ok, ty) s'

variable {dev fuel port}

theorem ps2RequestDeviceType_cases {deviceType : BitVec 32} {config : BitVec 8}
    {r : Ps2ErrorCode × BitVec 32}
    (h : (ps2RequestDeviceType dev fuel port deviceType config).Runs s t r s') :
    RequestRun dev fuel port deviceType config s t r s' := by
  rw [ps2RequestDeviceType, Traced.runs_bind] at h
  obtain ⟨result, s₁, t₁, t₂, hsend, h, rfl⟩ := h
  split at h
  · next hno =>
    obtain ⟨rfl, rfl, rfl⟩ := Traced.runs_pure.mp h
    rw [List.append_nil]
    exact .noAck (hno ▸ hsend)
  · next hno =>
    obtain rfl := (ps2SendByteAttempts_result (by decide) hsend).resolve_right hno
    rw [Traced.runs_bind] at h
    obtain ⟨ty, s₂, t₃, _, hreceive, h, rfl⟩ := h
    rw [Traced.runs_bind] at h
    obtain ⟨_, s₃, t₄, _, hemit, h, rfl⟩ := h
    obtain ⟨rfl, rfl⟩ := Traced.runs_emit.mp hemit
    rw [Traced.runs_bind] at h
    obtain ⟨_, s₄, t₅, _, hcommand, h, rfl⟩ := h
    obtain ⟨rfl, hs₄⟩ := ps2SendCommand_runs hcommand
    rw [Traced.runs_bind] at h
    obtain ⟨_, s₅, t₆, _, hraw, h, rfl⟩ := h
    obtain ⟨rfl, rfl, rfl⟩ := Traced.runs_pure.mp h
    rw [List.append_nil]
    exact .answered hsend hreceive hs₄ hraw

/-- The identify command is sent, whether it is acknowledged or not. -/
theorem sendIdentify_runs {r : Ps2ErrorCode}
    (h : (ps2SendByte dev fuel port ps2DevCmdIdentify).Runs s t r s') :
    s'.variables = s.variables ∧
      (∀ e ∈ t, e.OfIdentify port ∧ e ≠ .sent port ps2DevCmdDisableScanning) ∧
      ∀ ty', .identified port ty' ∉ t := by
  obtain ⟨hs, ht⟩ := ps2SendByte_confined h
  refine ⟨hs, fun e he => ⟨ofIdentify_of_ofSend port (.inr rfl) e (ht e he), ?_⟩,
    fun ty' he => ht _ he⟩
  rintro rfl
  exact absurd (ht _ he).2 (by decide)

/-- What follows an identify command that was taken. -/
theorem answer_runs (port : BitVec 8) {ty : BitVec 32} {config : BitVec 8} {r : Ps2ErrorCode}
    {t₂ t₃ : List Ps2Event} {s₁ s₂ s₃ : Ps2State δ}
    (hreceive : (ps2ReceiveDeviceType dev).Runs s₁ t₂ ty s₂) (hs₃ : s₃.variables = s₂.variables)
    (hraw : (ps2RawSendByte dev fuel ps2PortCmd config).Runs s₃ t₃ r s') :
    s'.variables = s₁.variables ∧
      (∀ e ∈ t₂ ++ .identified port ty :: .command ps2CmdWriteConfigByte :: t₃,
        e.OfAnswer port) ∧
      ∀ ty', .identified port ty' ∈
        t₂ ++ .identified port ty :: .command ps2CmdWriteConfigByte :: t₃ ↔ ty' = ty := by
  obtain ⟨hs₂, ht₂⟩ := ps2ReceiveDeviceType_confined
    (E := fun e => e.OfAnswer port ∧ ∀ ty', e ≠ .identified port ty')
    (fun v => ⟨trivial, fun _ => Ps2Event.noConfusion⟩)
    ⟨trivial, fun _ => Ps2Event.noConfusion⟩ hreceive
  obtain ⟨hs', ht₃⟩ := ps2RawSendByte_confined hraw
  refine ⟨hs'.trans (hs₃.trans hs₂), fun e he => ?_, fun ty' => ?_⟩
  · simp only [List.mem_append, List.mem_cons] at he
    rcases he with he | rfl | rfl | he
    · exact (ht₂ e he).1
    · rfl
    · exact .inr rfl
    · exact ofAnswer_of_ofSend port e (ht₃ e he)
  · have h₂ : .identified port ty' ∉ t₂ := fun he => (ht₂ _ he).2 ty' rfl
    have h₃ : .identified port ty' ∉ t₃ := fun he => ht₃ _ he
    simp [h₂, h₃]

/-- **Identifying a device** from the identify command on: the command is written
unless the controller never takes it, and only then a type is determined. -/
theorem ps2RequestDeviceType_runs {deviceType ty : BitVec 32} {config : BitVec 8}
    {r : Ps2ErrorCode} (hport : port ≠ ps2PortCmd)
    (h : (ps2RequestDeviceType dev fuel port deviceType config).Runs s t (r, ty) s') :
    s'.variables = s.variables ∧
      (∀ e ∈ t, e.OfIdentify port ∧ e ≠ .sent port ps2DevCmdDisableScanning) ∧
      (ty = deviceType ∧ (∀ ty', .identified port ty' ∉ t) ∨
        .sent port ps2DevCmdIdentify ∈ t ∧ ∀ ty', .identified port ty' ∈ t ↔ ty' = ty) ∧
      (.sent port ps2DevCmdIdentify ∈ t ↔
        t.count (.sendTimeout port ps2DevCmdIdentify) < ps2MaxResends) := by
  cases ps2RequestDeviceType_cases h with
  | noAck hsend =>
    obtain ⟨hs₁, hevents, hnot⟩ := sendIdentify_runs hsend
    obtain ⟨hsent, -, -⟩ := ps2SendByteAttempts_sent_iff (by decide) hsend
    exact ⟨hs₁, hevents, .inl ⟨rfl, hnot⟩, hsent⟩
  | answered hsend hreceive hs₃ hraw =>
    obtain ⟨hs₁, hevents, hnot⟩ := sendIdentify_runs hsend
    obtain ⟨hsent, -, hok⟩ := ps2SendByteAttempts_sent_iff (by decide) hsend
    obtain ⟨hs₂, ht₂, hidentified⟩ := answer_runs port hreceive hs₃ hraw
    have hsent₁ := hok rfl
    have htimeout := count_sendTimeout_of_ofAnswer ps2DevCmdIdentify hport ht₂
    refine ⟨hs₂.trans hs₁, ?_, .inr ⟨List.mem_append_left _ hsent₁, fun ty' => ?_⟩, ?_⟩
    · refine List.forall_mem_append.mpr ⟨hevents, fun e he => ?_⟩
      refine ⟨ofIdentify_of_ofAnswer e (ht₂ e he), ?_⟩
      rintro rfl
      exact hport (ht₂ _ he)
    · rw [List.mem_append, or_iff_right (hnot ty'), hidentified]
    · rw [List.count_append, htimeout, Nat.add_zero, ← hsent, List.mem_append]
      exact iff_of_true (.inl hsent₁) hsent₁

end Request

/-- The dialogue of an identification up to the config byte. -/
def ps2ConfigDelivered (port config : BitVec 8) : List Ps2Event :=
  [.sent port ps2DevCmdDisableScanning, .received ps2DevAck, .command ps2CmdReadConfigByte,
    .received config]

/-- **The device can be asked what it is**: it acknowledges that it is to stop
scanning, the controller then delivers its config byte, and it takes the
identify command in one of the attempts. -/
def IdentifyReached (port : BitVec 8) (t : List Ps2Event) : Prop :=
  (∃ config, ps2ConfigDelivered port config <:+: t) ∧
    t.count (.sendTimeout port ps2DevCmdIdentify) < ps2MaxResends

section Identification

variable (dev fuel port)

/-- **How an identification goes**: the device does not acknowledge that it is to stop
scanning, or the controller delivers no config byte, or it does and is set up without
translation before the type is requested. -/
inductive IdentifyRun (deviceType : BitVec 32) (s : Ps2State δ) :
    List Ps2Event → Ps2ErrorCode × BitVec 32 → Ps2State δ → Prop where
  /-- The device does not acknowledge. -/
  | noAck {t : List Ps2Event} {s₀ s' : Ps2State δ} (hs₀ : s₀.variables = s.variables)
      (hsend : (ps2SendByte dev fuel port ps2DevCmdDisableScanning).Runs s₀ t .errorNoAck s') :
      IdentifyRun deviceType s t (.errorNoAck, deviceType) s'
  /-- There is no config byte. -/
  | noConfig {t₁ : List Ps2Event} {s₀ s₁ s' : Ps2State δ} (hs₀ : s₀.variables = s.variables)
      (hsend : (ps2SendByte dev fuel port ps2DevCmdDisableScanning).Runs s₀ t₁ .ok s₁)
      (hs' : s'.variables = s₁.variables) :
      IdentifyRun deviceType s (t₁ ++ [.command ps2CmdReadConfigByte, .receiveTimeout])
        (.errorTimeout, deviceType) s'
  /-- The type is requested. -/
  | requested {t₁ t₂ t₃ : List Ps2Event} {config : BitVec 8} {r₂ : Ps2ErrorCode}
      {r : Ps2ErrorCode × BitVec 32} {s₀ s₁ s₂ s₃ s' : Ps2State δ}
      (hs₀ : s₀.variables = s.variables)
      (hsend : (ps2SendByte dev fuel port ps2DevCmdDisableScanning).Runs s₀ t₁ .ok s₁)
      (hs₂ : s₂.variables = s₁.variables)
      (hraw : (ps2RawSendByte dev fuel ps2PortCmd (config &&& ~~~(1#8 <<< 6))).Runs s₂ t₂ r₂ s₃)
      (hrequest : (ps2RequestDeviceType dev fuel port deviceType config).Runs s₃ t₃ r s') :
      IdentifyRun deviceType s (t₁ ++ .command ps2CmdReadConfigByte :: .received config ::
        .command ps2CmdWriteConfigByte :: (t₂ ++ t₃)) r s'

variable {dev fuel port}

theorem ps2IdentifyDevice_cases {deviceType : BitVec 32} {r : Ps2ErrorCode × BitVec 32}
    (h : (ps2IdentifyDevice dev fuel port deviceType).Runs s t r s') :
    IdentifyRun dev fuel port deviceType s t r s' := by
  rw [ps2IdentifyDevice, Traced.runs_bind] at h
  obtain ⟨_, s₀, t₀, _, hflush, h, rfl⟩ := h
  obtain ⟨rfl, hs₀⟩ := hflush.of_silent ps2FlushOutputBuffer_confined
  rw [Traced.runs_bind] at h
  obtain ⟨result, s₁, t₁, t₂, hsend, h, rfl⟩ := h
  rw [List.nil_append]
  split at h
  · next hno =>
    obtain ⟨rfl, rfl, rfl⟩ := Traced.runs_pure.mp h
    rw [List.append_nil]
    exact .noAck hs₀ (hno ▸ hsend)
  · next hno =>
    obtain rfl := (ps2SendByteAttempts_result (by decide) hsend).resolve_right hno
    rw [Traced.runs_bind] at h
    obtain ⟨_, s₂, t₃, t₄, hcommand, h, rfl⟩ := h
    obtain ⟨rfl, hs₂⟩ := ps2SendCommand_runs hcommand
    rw [Traced.runs_bind] at h
    obtain ⟨_, s₃, t₅, t₆, hreceive, h, rfl⟩ := h
    obtain ⟨hs₃, ⟨config, rfl, rfl⟩ | ⟨rfl, rfl⟩⟩ := ps2ReceiveByte_runs hreceive <;>
      dsimp only at h
    · rw [if_neg Ps2ErrorCode.noConfusion, Traced.runs_bind] at h
      obtain ⟨_, s₄, t₅, t₆, hcommand, h, rfl⟩ := h
      obtain ⟨rfl, hs₄⟩ := ps2SendCommand_runs hcommand
      rw [Traced.runs_bind] at h
      obtain ⟨_, s₅, t₇, t₈, hraw, hrequest, rfl⟩ := h
      have hrun := IdentifyRun.requested hs₀ hsend (hs₄.trans (hs₃.trans hs₂)) hraw hrequest
      exact hrun
    · rw [if_pos rfl] at h
      obtain ⟨rfl, rfl, rfl⟩ := Traced.runs_pure.mp h
      exact .noConfig hs₀ hsend (hs₃.trans hs₂)

/-- The device is sent that it is to stop scanning, whether it acknowledges it or not. -/
theorem sendDisableScanning_runs {r : Ps2ErrorCode}
    (h : (ps2SendByte dev fuel port ps2DevCmdDisableScanning).Runs s t r s') :
    s'.variables = s.variables ∧ (∀ e ∈ t, e.OfIdentify port) ∧
      (∀ ty', .identified port ty' ∉ t) ∧ .sent port ps2DevCmdIdentify ∉ t ∧
      t.count (.sendTimeout port ps2DevCmdIdentify) = 0 := by
  obtain ⟨hs, ht⟩ := ps2SendByte_confined h
  exact ⟨hs, fun e he => ofIdentify_of_ofSend port (.inl rfl) e (ht e he),
    fun ty' he => ht _ he, fun he => absurd (ht _ he).2 (by decide),
    List.count_eq_zero.mpr fun he => absurd (ht _ he).2 (by decide)⟩

/-- **The config byte is delivered** if the byte before it is acknowledged, and what
follows starts with it. -/
theorem ps2ConfigDelivered_iff {r : Ps2ErrorCode} {config : BitVec 8}
    (h : (ps2SendByte dev fuel port ps2DevCmdDisableScanning).Runs s t r s')
    (hu : .sent port ps2DevCmdDisableScanning ∉ u) :
    ps2ConfigDelivered port config <:+: t ++ u ↔
      r = .ok ∧ [.command ps2CmdReadConfigByte, .received config] <+: u :=
  ps2SendByteAttempts_shown (by decide) h hu

/-- **What an identification does**: it changes no variable, it determines a type
only if it writes the identify command, and it does that exactly if the dialogue
gets as far. -/
theorem ps2IdentifyDevice_runs {deviceType ty : BitVec 32} {r : Ps2ErrorCode}
    (hport : port ≠ ps2PortCmd)
    (h : (ps2IdentifyDevice dev fuel port deviceType).Runs s t (r, ty) s') :
    s'.variables = s.variables ∧ (∀ e ∈ t, e.OfIdentify port) ∧
      (ty = deviceType ∧ (∀ ty', .identified port ty' ∉ t) ∨
        .sent port ps2DevCmdIdentify ∈ t ∧ ∀ ty', .identified port ty' ∈ t ↔ ty' = ty) ∧
      ∀ u, .sent port ps2DevCmdDisableScanning ∉ u → .sendTimeout port ps2DevCmdIdentify ∉ u →
        (.sent port ps2DevCmdIdentify ∈ t ↔ IdentifyReached port (t ++ u)) := by
  cases ps2IdentifyDevice_cases h with
  | noAck hs₀ hsend =>
    obtain ⟨hs₁, hevents, hnot, hnotSent, -⟩ := sendDisableScanning_runs hsend
    refine ⟨hs₁.trans hs₀, hevents, .inl ⟨rfl, hnot⟩, fun u hu _ => iff_of_false hnotSent ?_⟩
    rintro ⟨⟨config, hconfig⟩, -⟩
    cases ((ps2ConfigDelivered_iff hsend hu).mp hconfig).1
  | noConfig hs₀ hsend hs' =>
    obtain ⟨hs₁, hevents, hnot, hnotSent, -⟩ := sendDisableScanning_runs hsend
    refine ⟨hs'.trans (hs₁.trans hs₀), ?_, .inl ⟨rfl, ?_⟩, fun u hu _ => ?_⟩
    · refine List.forall_mem_append.mpr ⟨hevents, ?_⟩
      exact List.forall_mem_cons.mpr ⟨.inr (.inl rfl), List.forall_mem_singleton.mpr trivial⟩
    · intro ty'
      simp [hnot]
    · refine iff_of_false (by simp [hnotSent]) ?_
      rintro ⟨⟨config, hconfig⟩, -⟩
      rw [List.append_assoc, ps2ConfigDelivered_iff hsend (by simpa using hu)] at hconfig
      simp [List.cons_prefix_cons] at hconfig
  | @requested t₁ t₂ t₃ config _ _ _ _ _ _ _ hs₀ hsend hs₂ hraw hrequest =>
    obtain ⟨hs₁, hevents, hnot, hnotSent, hcount₁⟩ := sendDisableScanning_runs hsend
    obtain ⟨hs₃, ht₂⟩ := ps2RawSendByte_confined hraw
    obtain ⟨hs', ht₃, hidentified, hsent⟩ := ps2RequestDeviceType_runs hport hrequest
    have hother : ∀ data, .sent port data ∉ t₂ := fun data he => hport (ht₂ _ he).1
    have hnot₂ : ∀ ty', .identified port ty' ∉ t₂ := fun ty' he => ht₂ _ he
    refine ⟨hs'.trans (hs₃.trans (hs₂.trans (hs₁.trans hs₀))), ?_, ?_, ?_⟩
    · intro e he
      simp only [List.mem_append, List.mem_cons] at he
      rcases he with he | rfl | rfl | rfl | he | he
      · exact hevents e he
      · exact .inr (.inl rfl)
      · trivial
      · exact .inr (.inr rfl)
      · exact ofIdentify_of_ofAnswer e (ofAnswer_of_ofSend port e (ht₂ e he))
      · exact (ht₃ e he).1
    · refine hidentified.imp (fun h => ⟨h.1, fun ty' => ?_⟩) fun h => ⟨?_, fun ty' => ?_⟩
      · simp [hnot, hnot₂, h.2]
      · simp [h.1]
      · simp [hnot, hnot₂, h.2]
    · intro u hu hu'
      have hdelivered : .sent port ps2DevCmdDisableScanning ∉ t₃ := fun he => (ht₃ _ he).2 rfl
      have hcount₂ := count_sendTimeout_of_ofAnswer ps2DevCmdIdentify hport fun e he =>
        ofAnswer_of_ofSend port e (ht₂ e he)
      have hcountu := List.count_eq_zero.mpr hu'
      have hconfig : ps2ConfigDelivered port config <:+: t₁ ++ .command ps2CmdReadConfigByte ::
          .received config :: .command ps2CmdWriteConfigByte :: (t₂ ++ t₃) ++ u := by
        rw [List.append_assoc, ps2ConfigDelivered_iff hsend (by simp [hother, hdelivered, hu])]
        exact ⟨rfl, by simp [List.cons_prefix_cons]⟩
      rw [IdentifyReached, and_iff_right ⟨config, hconfig⟩]
      simp [hnotSent, hother, hsent, hcount₁, hcount₂, hcountu]

end Identification

end Dialogue
