import Joes.Ps2Keyboard
import Joes.Ps2Dialogue

/-!
# The acknowledgement that selecting a scan code set looks for

`ps2_send_byte` waits for the acknowledgement of the byte it sends, and takes it
out of the stream. `ps2_kbd_set_scancode_set` does not look at its return code:
it receives one more byte after each of its two sends and decides by the last
one. So what counts is the byte *behind* the acknowledgement, and no byte at all
counts as 0.

`finalAnswers` reads these bytes off the dialogue, one for each attempt. The
selection fails exactly if there are three of them, two requests to resend and
one that is no acknowledgement (`ps2KbdSetScancodeSet_answers`); in any other
dialogue it is reported as done.
-/

section Acknowledge

variable {δ : Type} {dev : PortDevice δ} {fuel n : ℕ} {s s' : Ps2State δ} {t : List Ps2Event}
  {port data scancodeSet : BitVec 8}

/-- **Both bytes were acknowledged in one attempt**: the command byte, and after it
the byte of the scan code set, with no other command byte between them. -/
def AcknowledgedTogether (port scancodeSet : BitVec 8) (t : List Ps2Event) : Prop :=
  ∃ mid, [.sent port ps2KbdGetSetScancodeSet, .received ps2DevAck] ++ mid ++
      [.sent port scancodeSet, .received ps2DevAck] <:+: t ∧
    .sent port ps2KbdGetSetScancodeSet ∉ mid ∧ .sendTimeout port ps2KbdGetSetScancodeSet ∉ mid

/-- **The bytes that attempts to select a scan code set end with**: what was
received last behind the byte of the scan code set, before another byte is sent.
A timeout counts as 0. The second argument is that byte so far, once the byte of
the scan code set was sent. -/
def finalAnswers (scancodeSet : BitVec 8) : Option (BitVec 8) → List Ps2Event → List (BitVec 8)
  | answer, [] => answer.toList
  | answer, .sent _ data :: t | answer, .sendTimeout _ data :: t =>
    if data = scancodeSet then finalAnswers scancodeSet (some 0#8) t
    else answer.toList ++ finalAnswers scancodeSet none t
  | answer, .received v :: t => finalAnswers scancodeSet (answer.map fun _ => v) t
  | answer, .receiveTimeout :: t => finalAnswers scancodeSet (answer.map fun _ => 0#8) t
  | answer, _ :: t => finalAnswers scancodeSet answer t

/-- **The keyboard refused three times**: two requests to resend, and then no
acknowledgement. -/
def RefusedThrice (scancodeSet : BitVec 8) (t : List Ps2Event) : Prop :=
  ∃ v, v ≠ ps2DevAck ∧ finalAnswers scancodeSet none t = [ps2DevResend, ps2DevResend, v]

/-! ## The answers along a dialogue -/

theorem finalAnswers_announcement (answer : Option (BitVec 8)) (t : List Ps2Event) :
    finalAnswers scancodeSet answer (ps2Announcement port ++ t)
      = finalAnswers scancodeSet answer t := by
  unfold ps2Announcement
  split
  · rfl
  · rfl

/-- An attempt to send another byte ends the answer to the byte before. -/
theorem FailedAttempt.finalAnswers_other (h : FailedAttempt port data t)
    (hdata : data ≠ scancodeSet) (answer : Option (BitVec 8)) (u : List Ps2Event) :
    finalAnswers scancodeSet answer (t ++ u)
      = answer.toList ++ finalAnswers scancodeSet none u := by
  cases h with
  | sendTimeout =>
    rw [List.append_assoc, finalAnswers_announcement]
    exact if_neg hdata
  | receiveTimeout =>
    rw [List.append_assoc, finalAnswers_announcement]
    exact if_neg hdata
  | refused _ =>
    rw [List.append_assoc, finalAnswers_announcement]
    exact if_neg hdata

/-- An attempt to send the byte of the scan code set starts an answer. -/
theorem FailedAttempt.finalAnswers_self (h : FailedAttempt port scancodeSet t) :
    ∃ v, ∀ answer u, finalAnswers scancodeSet answer (t ++ u)
      = finalAnswers scancodeSet (some v) u := by
  cases h with
  | sendTimeout =>
    refine ⟨0#8, fun answer u => ?_⟩
    rw [List.append_assoc, finalAnswers_announcement]
    exact if_pos rfl
  | receiveTimeout =>
    refine ⟨0#8, fun answer u => ?_⟩
    rw [List.append_assoc, finalAnswers_announcement]
    exact if_pos rfl
  | @refused v _ =>
    refine ⟨v, fun answer u => ?_⟩
    rw [List.append_assoc, finalAnswers_announcement]
    exact if_pos rfl

/-- Sending another byte starts no answer. -/
theorem finalAnswers_none_of_other {r : Ps2ErrorCode} (hecho : data ≠ ps2DevCmdEcho)
    (hdata : data ≠ scancodeSet) (h : (ps2SendByteAttempts dev fuel port data n).Runs s t r s')
    (u : List Ps2Event) :
    finalAnswers scancodeSet none (t ++ u) = finalAnswers scancodeSet none u := by
  induction n generalizing s t with
  | zero =>
    obtain ⟨-, -, rfl⟩ := Traced.runs_pure.mp h
    rfl
  | succ n ih =>
    rcases ps2SendByteAttempts_succ hecho h with ⟨s₁, t₁, t₂, hfailed, hrest, rfl⟩ | ⟨-, rfl⟩
    · rw [List.append_assoc, hfailed.finalAnswers_other hdata]
      exact ih hrest
    · rw [List.append_assoc, finalAnswers_announcement]
      exact if_neg hdata

/-- **Sending another byte** ends the answer to the byte before. -/
theorem finalAnswers_of_other {r : Ps2ErrorCode} (hecho : data ≠ ps2DevCmdEcho)
    (hdata : data ≠ scancodeSet) (h : (ps2SendByte dev fuel port data).Runs s t r s')
    (answer : Option (BitVec 8)) (u : List Ps2Event) :
    finalAnswers scancodeSet answer (t ++ u)
      = answer.toList ++ finalAnswers scancodeSet none u := by
  rcases ps2SendByteAttempts_succ hecho h with ⟨s₁, t₁, t₂, hfailed, hrest, rfl⟩ | ⟨-, rfl⟩
  · rw [List.append_assoc, hfailed.finalAnswers_other hdata,
      finalAnswers_none_of_other hecho hdata hrest]
  · rw [List.append_assoc, finalAnswers_announcement]
    exact if_neg hdata

/-- Once there is an answer, sending the byte of the scan code set leaves one. -/
theorem finalAnswers_some_of_self {r : Ps2ErrorCode} (hecho : scancodeSet ≠ ps2DevCmdEcho)
    (h : (ps2SendByteAttempts dev fuel port scancodeSet n).Runs s t r s') (v : BitVec 8) :
    ∃ w, ∀ u, finalAnswers scancodeSet (some v) (t ++ u)
      = finalAnswers scancodeSet (some w) u := by
  induction n generalizing s t v with
  | zero =>
    obtain ⟨-, -, rfl⟩ := Traced.runs_pure.mp h
    exact ⟨v, fun _ => rfl⟩
  | succ n ih =>
    rcases ps2SendByteAttempts_succ hecho h with ⟨s₁, t₁, t₂, hfailed, hrest, rfl⟩ | ⟨-, rfl⟩
    · obtain ⟨v', hv'⟩ := hfailed.finalAnswers_self
      obtain ⟨w, hw⟩ := ih hrest v'
      refine ⟨w, fun u => ?_⟩
      rw [List.append_assoc, hv', hw]
    · refine ⟨ps2DevAck, fun u => ?_⟩
      rw [List.append_assoc, finalAnswers_announcement]
      exact if_pos rfl

/-- **Sending the byte of the scan code set** starts an answer. -/
theorem finalAnswers_of_self {r : Ps2ErrorCode} (hecho : scancodeSet ≠ ps2DevCmdEcho)
    (h : (ps2SendByte dev fuel port scancodeSet).Runs s t r s') :
    ∃ w, ∀ answer u, finalAnswers scancodeSet answer (t ++ u)
      = finalAnswers scancodeSet (some w) u := by
  rcases ps2SendByteAttempts_succ hecho h with ⟨s₁, t₁, t₂, hfailed, hrest, rfl⟩ | ⟨-, rfl⟩
  · obtain ⟨v, hv⟩ := hfailed.finalAnswers_self
    obtain ⟨w, hw⟩ := finalAnswers_some_of_self hecho hrest v
    refine ⟨w, fun answer u => ?_⟩
    rw [List.append_assoc, hv, hw]
  · refine ⟨ps2DevAck, fun answer u => ?_⟩
    rw [List.append_assoc, finalAnswers_announcement]
    exact if_pos rfl

/-- Receiving a byte replaces the answer, if there is one. -/
theorem finalAnswers_of_receive {r : Ps2ErrorCode × BitVec 8}
    (h : (ps2ReceiveByte dev).Runs s t r s') (answer : Option (BitVec 8)) (u : List Ps2Event) :
    finalAnswers scancodeSet answer (t ++ u)
      = finalAnswers scancodeSet (answer.map fun _ => r.2) u := by
  obtain ⟨-, ⟨v, rfl, rfl⟩ | ⟨rfl, rfl⟩⟩ := ps2ReceiveByte_runs h
  · rfl
  · rfl

/-! ## The attempts -/

/-- **One attempt** has one answer, and what follows goes by it. -/
theorem ps2KbdSetScancodeSetTries_succ {scancodeSet : Ps2KbdScancodeSet} {tries : ℕ}
    {r : Ps2KbdErrorCode}
    (h : (ps2KbdSetScancodeSetTries dev fuel port scancodeSet (tries + 1)).Runs s t r s') :
    ∃ y s₁ t₁ t₂, t = t₁ ++ t₂ ∧
      (∀ answer u, finalAnswers scancodeSet.byte answer (t₁ ++ u)
        = answer.toList ++ finalAnswers scancodeSet.byte (some y) u) ∧
      (y = ps2DevAck ∧ r = .ok ∧ t₂ = [] ∨
        y = ps2DevResend ∧
          (ps2KbdSetScancodeSetTries dev fuel port scancodeSet tries).Runs s₁ t₂ r s' ∨
        y ≠ ps2DevAck ∧ y ≠ ps2DevResend ∧ t₂ = [] ∧
          r = if tries = 0 then .errorTooManyResends else .ok) := by
  have hecho : scancodeSet.byte ≠ ps2DevCmdEcho := by cases scancodeSet <;> decide
  have hcommand : ps2KbdGetSetScancodeSet ≠ scancodeSet.byte := by cases scancodeSet <;> decide
  rw [ps2KbdSetScancodeSetTries, Traced.runs_bind] at h
  obtain ⟨_, s₁, t₁, _, hsend₁, h, rfl⟩ := h
  rw [Traced.runs_bind] at h
  obtain ⟨_, s₂, t₂, _, hreceive₁, h, rfl⟩ := h
  rw [Traced.runs_bind] at h
  obtain ⟨_, s₃, t₃, _, hsend₂, h, rfl⟩ := h
  rw [Traced.runs_bind] at h
  obtain ⟨⟨_, y⟩, s₄, t₄, t₅, hreceive₂, h, rfl⟩ := h
  obtain ⟨w, hw⟩ := finalAnswers_of_self hecho hsend₂
  refine ⟨y, s₄, t₁ ++ t₂ ++ t₃ ++ t₄, t₅, by simp, fun answer u => ?_, ?_⟩
  · rw [List.append_assoc, List.append_assoc, List.append_assoc,
      finalAnswers_of_other (by decide) hcommand hsend₁, finalAnswers_of_receive hreceive₁, hw,
      finalAnswers_of_receive hreceive₂]
    rfl
  · -- only the answer to the second byte is looked at
    dsimp only at h
    split at h
    · next hack =>
      obtain ⟨rfl, rfl, rfl⟩ := Traced.runs_pure.mp h
      exact .inl ⟨hack, rfl, rfl⟩
    · next hack =>
      split at h
      · next hresend => exact .inr (.inl ⟨hresend, h⟩)
      · next hresend =>
        refine .inr (.inr ⟨hack, hresend, ?_⟩)
        split at h
        · next hzero =>
          obtain ⟨rfl, rfl, rfl⟩ := Traced.runs_pure.mp h
          exact ⟨rfl, (if_pos hzero).symm⟩
        · next hzero =>
          obtain ⟨rfl, rfl, rfl⟩ := Traced.runs_pure.mp h
          exact ⟨rfl, (if_neg hzero).symm⟩

/-- **What the attempts come to**: the answers of all of them but the last, and
that of the last. The selection fails if all attempts were made, the answers are
requests to resend, and the last one is no acknowledgement. -/
theorem ps2KbdSetScancodeSetTries_answers {scancodeSet : Ps2KbdScancodeSet} {tries : ℕ}
    {r : Ps2KbdErrorCode}
    (h : (ps2KbdSetScancodeSetTries dev fuel port scancodeSet (tries + 1)).Runs s t r s') :
    ∃ ys y, (∀ answer u, finalAnswers scancodeSet.byte answer (t ++ u)
          = answer.toList ++ ys ++ finalAnswers scancodeSet.byte (some y) u) ∧
      (r ≠ .ok ↔ ys = List.replicate tries ps2DevResend ∧ y ≠ ps2DevAck) := by
  induction tries generalizing s t with
  | zero =>
    obtain ⟨y, s₁, t₁, t₂, rfl, hanswer, hrest⟩ := ps2KbdSetScancodeSetTries_succ h
    refine ⟨[], y, ?_, ?_⟩
    · intro answer u
      rcases hrest with ⟨-, -, rfl⟩ | ⟨-, hrest⟩ | ⟨-, -, rfl, -⟩
      · rw [List.append_nil, hanswer, List.append_nil]
      · obtain ⟨-, -, rfl⟩ := Traced.runs_pure.mp hrest
        rw [List.append_nil, hanswer, List.append_nil]
      · rw [List.append_nil, hanswer, List.append_nil]
    · rcases hrest with ⟨hack, rfl, -⟩ | ⟨hresend, hrest⟩ | ⟨hack, -, -, rfl⟩
      · exact iff_of_false (fun h => h rfl) fun h => h.2 hack
      · obtain ⟨rfl, -, -⟩ := Traced.runs_pure.mp hrest
        refine iff_of_true (by decide) ⟨rfl, ?_⟩
        rw [hresend]
        decide
      · exact iff_of_true (by decide) ⟨rfl, hack⟩
  | succ tries ih =>
    obtain ⟨y, s₁, t₁, t₂, rfl, hanswer, hrest⟩ := ps2KbdSetScancodeSetTries_succ h
    have hne : [] ≠ List.replicate (tries + 1) ps2DevResend := List.cons_ne_nil _ _ |>.symm
    rcases hrest with ⟨hack, rfl, rfl⟩ | ⟨rfl, hrest⟩ | ⟨hack, hresend, rfl, rfl⟩
    · refine ⟨[], y, fun answer u => ?_, iff_of_false (fun h => h rfl) fun h => h.2 hack⟩
      rw [List.append_nil, hanswer, List.append_nil]
    · -- the attempts that are left, behind a request to resend
      obtain ⟨ys, y, hanswers, hfails⟩ := ih hrest
      refine ⟨ps2DevResend :: ys, y, fun answer u => ?_, ?_⟩
      · rw [List.append_assoc, hanswer, hanswers, List.append_assoc, List.append_assoc]
        rfl
      · rw [hfails, List.replicate_succ, List.cons.injEq, eq_self, true_and]
    · refine ⟨[], y, fun answer u => ?_, iff_of_false ?_ fun h => hne h.1⟩
      · rw [List.append_nil, hanswer, List.append_nil]
      · rw [if_neg (Nat.succ_ne_zero tries)]
        exact fun h => h rfl

/-- **Selecting a scan code set fails exactly if the keyboard refused three
times**, before whatever ends the last answer. -/
theorem ps2KbdSetScancodeSet_answers {scancodeSet : Ps2KbdScancodeSet} {r : Ps2KbdErrorCode}
    (h : (ps2KbdSetScancodeSet dev fuel port scancodeSet).Runs s t r s') {u : List Ps2Event}
    (hu : ∀ y, finalAnswers scancodeSet.byte (some y) u = [y]) :
    r ≠ .ok ↔ RefusedThrice scancodeSet.byte (t ++ u) := by
  obtain ⟨ys, y, hanswers, hfails⟩ := ps2KbdSetScancodeSetTries_answers h
  rw [hfails, RefusedThrice]
  constructor
  · rintro ⟨rfl, hack⟩
    refine ⟨y, hack, ?_⟩
    rw [hanswers, hu]
    rfl
  · rintro ⟨v, hv, hthree⟩
    rw [hanswers, hu] at hthree
    have hsplit : ys ++ [y] = [ps2DevResend, ps2DevResend] ++ [v] := hthree
    obtain ⟨hys, hy⟩ := List.append_inj' hsplit rfl
    obtain rfl : y = v := by simpa using hy
    exact ⟨hys, hv⟩

/-- **Configuring the keyboard** fails exactly if the keyboard refused three
times. -/
theorem ps2KbdConfigure_answers {r : Ps2KbdErrorCode}
    (h : (ps2KbdConfigure dev fuel port).Runs s t r s') :
    r ≠ .ok ↔ RefusedThrice Ps2KbdScancodeSet.scancodeSet1.byte t := by
  rw [ps2KbdConfigure, Traced.runs_bind] at h
  obtain ⟨_, s₁, t₁, _, hdisable, h, rfl⟩ := h
  rw [Traced.runs_bind] at h
  obtain ⟨result, s₂, t₂, t₃, hset, h, rfl⟩ := h
  have hdropped : RefusedThrice Ps2KbdScancodeSet.scancodeSet1.byte (t₁ ++ (t₂ ++ t₃))
      ↔ RefusedThrice Ps2KbdScancodeSet.scancodeSet1.byte (t₂ ++ t₃) := by
    unfold RefusedThrice
    rw [finalAnswers_of_other (by decide) (by decide) hdisable]
    rfl
  rw [hdropped]
  split at h
  · next hfailed =>
    obtain ⟨rfl, -, rfl⟩ := Traced.runs_pure.mp h
    exact iff_of_true (by decide) ((ps2KbdSetScancodeSet_answers hset fun _ => rfl).mp hfailed)
  · next hok =>
    rw [Traced.runs_bind] at h
    obtain ⟨_, s₃, t₄, _, henable, h, rfl⟩ := h
    rw [Traced.runs_bind] at h
    obtain ⟨_, s₄, t₅, _, hready, h, rfl⟩ := h
    obtain ⟨-, rfl⟩ := Traced.runs_modify.mp hready
    obtain ⟨rfl, -, rfl⟩ := Traced.runs_pure.mp h
    refine iff_of_false (fun h => h rfl) fun hrefused => ?_
    refine hok ((ps2KbdSetScancodeSet_answers hset fun y => ?_).mpr hrefused)
    rw [finalAnswers_of_other (by decide) (by decide) henable]
    rfl

/-- Initialising the keyboard, too. -/
theorem ps2KbdInit_answers {r : Ps2KbdErrorCode} (hstate : s.kbd.state = .uninitialized)
    (h : (ps2KbdInit dev fuel port).Runs s t r s') :
    r ≠ .ok ↔ RefusedThrice Ps2KbdScancodeSet.scancodeSet1.byte t := by
  -- before the configuration nothing is sent
  rw [ps2KbdInit, Traced.runs_bind] at h
  obtain ⟨_, s₁, t₁, _, hemit, h, rfl⟩ := h
  obtain ⟨rfl, rfl⟩ := Traced.runs_emit.mp hemit
  rw [Traced.runs_bind] at h
  obtain ⟨_, s₂, t₂, _, hport, h, rfl⟩ := h
  obtain ⟨rfl, rfl⟩ := Traced.runs_modify.mp hport
  rw [Traced.runs_bind] at h
  obtain ⟨kbd, s₃, t₃, t', hget, h, rfl⟩ := h
  obtain ⟨rfl, rfl, rfl⟩ := Traced.runs_gets.mp hget
  rw [if_neg (not_not.mpr hstate)] at h
  show r ≠ .ok ↔ RefusedThrice Ps2KbdScancodeSet.scancodeSet1.byte t'
  exact ps2KbdConfigure_answers h

/-! ## Termination -/

/-- Sending a byte to the first port always ends. -/
theorem ps2RawSendByte_total (hport : port ≠ ps2Port2) :
    (ps2RawSendByte dev fuel port data).Total := by
  have hannounce : (Traced.when (port = ps2Port2)
      (ps2SendCommand dev fuel ps2CmdSendNextByteToPort2)).Total := by
    unfold Traced.when
    rw [if_neg hport]
    exact .pure
  have hwait : ∀ n, (ps2WaitToSend dev n).Total := by
    intro n
    induction n with
    | zero => exact .pure
    | succ n ih =>
      exact .bind (.bind (portReadByte_total _) fun _ => .pure) fun _ => .ite ih .pure
  refine .bind hannounce fun _ => .bind (hwait ps2Timeout) fun _ => .ite ?_ ?_
  · exact .bind .modify fun _ => .bind .emit fun _ => .pure
  · exact .bind .emit fun _ => .pure

theorem ps2SendByte_total (hport : port ≠ ps2Port2) :
    (ps2SendByte dev fuel port data).Total := by
  unfold ps2SendByte
  induction ps2MaxResends with
  | zero => exact .pure
  | succ attempts ih =>
    refine .bind (ps2RawSendByte_total hport) fun _ => .ite ih ?_
    refine .bind ps2ReceiveByte_total fun _ => .ite ih (.ite ih (.ite .pure (.ite .pure ih)))

/-- **Initialising the keyboard at the first port always ends.** -/
theorem ps2KbdInit_total (hport : port ≠ ps2Port2) : (ps2KbdInit dev fuel port).Total := by
  have hset : ∀ scancodeSet, (ps2KbdSetScancodeSet dev fuel port scancodeSet).Total := by
    intro scancodeSet
    unfold ps2KbdSetScancodeSet
    induction 3 with
    | zero => exact .pure
    | succ tries ih =>
      refine .bind (ps2SendByte_total hport) fun _ => .bind ps2ReceiveByte_total fun _ => ?_
      refine .bind (ps2SendByte_total hport) fun _ => .bind ps2ReceiveByte_total fun _ => ?_
      exact .ite .pure (.ite ih (.ite .pure .pure))
  refine .bind .emit fun _ => .bind .modify fun _ => .bind .gets fun _ => .ite .pure ?_
  refine .bind (ps2SendByte_total hport) fun _ => .bind (hset _) fun _ => .ite .pure ?_
  exact .bind (ps2SendByte_total hport) fun _ => .bind .modify fun _ => .pure

/-! ## Success and acknowledgement -/

/-- **An initialisation that goes by the acknowledgement**: it succeeds only if
both bytes were acknowledged in one attempt, and otherwise it fails and leaves
the driver uninitialised. -/
structure AcknowledgedInit (port : BitVec 8) (t : List Ps2Event) (r : Ps2KbdErrorCode)
    (s' : Ps2State δ) : Prop where
  acknowledged : r = .ok →
    AcknowledgedTogether port Ps2KbdScancodeSet.scancodeSet1.byte t
  otherwise : ¬ AcknowledgedTogether port Ps2KbdScancodeSet.scancodeSet1.byte t →
    r = .errorSetScancodeSetFailed ∧ s'.kbd.state = .uninitialized

/-- **When success means an acknowledgement.** Selecting a scan code set and
initialising the keyboard succeed only if the keyboard acknowledged both bytes in
one attempt exactly in the dialogues in which it did, or refused three times. At
any port but the second one the initialisation ends. -/
theorem ps2KbdInit_acknowledged_iff (dev : PortDevice δ) (port : BitVec 8) :
    (port ≠ ps2Port2 → ∀ fuel, (ps2KbdInit dev fuel port).Total) ∧
    (∀ fuel (scancodeSet : Ps2KbdScancodeSet) s t r s',
      (ps2KbdSetScancodeSet dev fuel port scancodeSet).Runs s t r s' →
        ((r = .ok → AcknowledgedTogether port scancodeSet.byte t) ↔
          AcknowledgedTogether port scancodeSet.byte t ∨ RefusedThrice scancodeSet.byte t)) ∧
    ∀ fuel s t r s', s.kbd.state = .uninitialized → (ps2KbdInit dev fuel port).Runs s t r s' →
      (AcknowledgedInit port t r s' ↔
        AcknowledgedTogether port Ps2KbdScancodeSet.scancodeSet1.byte t ∨
          RefusedThrice Ps2KbdScancodeSet.scancodeSet1.byte t) := by
  refine ⟨fun hport fuel => ps2KbdInit_total hport, ?_, ?_⟩
  · intro fuel scancodeSet s t r s' h
    have hfails := ps2KbdSetScancodeSet_answers h (u := []) fun _ => rfl
    rw [List.append_nil] at hfails
    rw [← hfails, ← imp_iff_or_not]
  · intro fuel s t r s' hstate h
    obtain ⟨-, -, hresult⟩ := ps2KbdInit_runs h
    rw [← ps2KbdInit_answers hstate h, ← imp_iff_or_not]
    constructor
    · exact fun h => h.acknowledged
    · refine fun hack => ⟨hack, fun hnot => ?_⟩
      rcases hresult with ⟨hne, -⟩ | ⟨-, hr, hleft⟩ | ⟨-, hr, -⟩
      · exact absurd hstate hne
      · exact ⟨hr, hleft⟩
      · exact absurd (hack hr) hnot

end Acknowledge

/-- A controller that always has the same byte to deliver. -/
def repeating (v : BitVec 8) : PortDevice Unit where
  read port _ := (if port = ps2Status then 1#8 else v, ())
  write _ _ _ := ()

/-- A keyboard that acknowledges everything is initialised. -/
theorem ps2KbdInit_acknowledged_iff_repeating :
    ∃ t s', (ps2KbdInit (repeating ps2DevAck) 1 ps2Port1).Runs (.initial ()) t .ok s' ∧
      AcknowledgedInit ps2Port1 t .ok s' := by
  have hacks : (ps2KbdInit (repeating ps2DevAck) 1 ps2Port1 (.initial ())).map
      (fun x => (x.1, decide ([.sent ps2Port1 ps2KbdGetSetScancodeSet, .received ps2DevAck]
        ++ [.received ps2DevAck] ++
        [.sent ps2Port1 Ps2KbdScancodeSet.scancodeSet1.byte, .received ps2DevAck] <:+: x.2.2)))
      = some (.ok, true) := by decide +kernel
  obtain ⟨⟨r, s', t⟩, hrun, hacks⟩ := Option.map_eq_some_iff.mp hacks
  obtain ⟨rfl, hacks⟩ := Prod.mk.inj hacks
  refine ⟨t, s', hrun, ((ps2KbdInit_acknowledged_iff _ ps2Port1).2.2 1 _ t .ok s' rfl hrun).mpr
    (.inl ⟨[.received ps2DevAck], of_decide_eq_true hacks, by simp, by simp⟩)⟩

/-- **Success without an acknowledgement**: the keyboard answers with an error
whatever it is sent, and is initialised. -/
theorem ps2KbdInit_not_acknowledged :
    ¬ ∀ t r s', (ps2KbdInit (repeating 0xfc#8) 1 ps2Port1).Runs (.initial ()) t r s' →
      AcknowledgedInit ps2Port1 t r s' := by
  intro h
  have hok : (ps2KbdInit (repeating 0xfc#8) 1 ps2Port1 (.initial ())).map
      (fun x => (x.1, decide (.received ps2DevAck ∈ x.2.2))) = some (.ok, false) := by
    decide +kernel
  obtain ⟨⟨r, s', t⟩, hrun, hok⟩ := Option.map_eq_some_iff.mp hok
  obtain ⟨rfl, hack⟩ := Prod.mk.inj hok
  obtain ⟨mid, hmid, -⟩ := (h t .ok s' hrun).acknowledged rfl
  exact of_decide_eq_false hack (hmid.subset (by simp))
