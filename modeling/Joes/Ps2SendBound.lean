import Joes.Ps2

/-!
# How long sending to a device takes

`ps2_send_byte` gives an attempt up when the controller does not take a byte, or has no
answer, for a number of polls. But the command that announces a byte for the second port
is sent without a limit. So sending to the first port always ends, after a number of reads
that is known before, and sending to the second one does exactly as far as the controller
takes that command (`ps2SendByte_bounded_iff`).

What the controller does is here the stream of the values that are read of it, from
whichever port, and the number of reads is the place in the stream.
-/

/-- The ports behind which a stream of values is read. -/
def streamDevice (b : ℕ → BitVec 8) : PortDevice ℕ where
  read _ n := (b n, n + 1)
  write _ _ n := n

/-- The first place in a stream from `p` on, within `n`, where a condition holds. -/
def firstWithin (P : ℕ → Bool) (p : ℕ) : ℕ → Option ℕ
  | 0 => none
  | n + 1 => if P p then some p else firstWithin P (p + 1) n

/-- The value is a status with an empty input buffer. -/
def inputClear (b : ℕ → BitVec 8) (p : ℕ) : Bool := b p &&& 1#8 <<< 1 == 0#8

/-- The value is a status with a full output buffer. -/
def outputFull (b : ℕ → BitVec 8) (p : ℕ) : Bool := b p &&& 1#8 != 0#8

/-- The answer accepts a byte that was sent. -/
def Accepts (data response : BitVec 8) : Prop :=
  response = ps2DevAck ∨ response = ps2DevEcho ∧ data = ps2DevCmdEcho

instance (data response : BitVec 8) : Decidable (Accepts data response) :=
  inferInstanceAs (Decidable (_ ∨ _))

/-- What a wait that polls for a condition up to `n` times comes to, and where it ends. -/
def poll (P : ℕ → Bool) (p n : ℕ) : Ps2ErrorCode × ℕ :=
  match firstWithin P p n with
  | none => (.errorTimeout, p + n)
  | some q => (.ok, q + 1)

/-- **An attempt** to send a byte, in a stream from `p` on and behind its announcement:
whether it is accepted, and where it ends. -/
def attempt (b : ℕ → BitVec 8) (data : BitVec 8) (p : ℕ) : Bool × ℕ :=
  let send := poll (inputClear b) p ps2Timeout
  if send.1 ≠ .ok then (false, send.2)
  else
    let receive := poll (outputFull b) send.2 ps2Timeout
    if receive.1 ≠ .ok then (false, receive.2)
    else (decide (Accepts data (b receive.2)), receive.2 + 1)

/-- A byte for the second port is announced within `n` polls, and the announcement ends at
`q`. A byte for the first port is not announced. -/
def AnnouncedAt (b : ℕ → BitVec 8) (port : BitVec 8) (n p q : ℕ) : Prop :=
  if port = ps2Port2 then ∃ k, firstWithin (inputClear b) p n = some k ∧ k + 1 = q else p = q

/-- **The controller takes the announcements** within `n` polls, in each of the attempts
that are left. -/
def TakesAnnouncements (b : ℕ → BitVec 8) (port data : BitVec 8) (n : ℕ) : ℕ → ℕ → Prop
  | 0, _ => True
  | attempts + 1, p => ∃ q, AnnouncedAt b port n p q ∧
    ((attempt b data q).1 = false →
      TakesAnnouncements b port data n attempts (attempt b data q).2)

/-! ## Places in a stream -/

theorem firstWithin_some {P : ℕ → Bool} {p n q : ℕ} (h : firstWithin P p n = some q) :
    p ≤ q ∧ q < p + n := by
  induction n generalizing p with
  | zero => cases h
  | succ n ih =>
    rw [firstWithin] at h
    split at h
    · obtain rfl := Option.some.inj h
      omega
    · have hle := ih h
      omega

/-- A place that is found is found within any number that reaches it. -/
theorem firstWithin_of_lt {P : ℕ → Bool} {p n m q : ℕ} (h : firstWithin P p n = some q)
    (hlt : q < p + m) : firstWithin P p m = some q := by
  induction n generalizing p m with
  | zero => cases h
  | succ n ih =>
    have hle := firstWithin_some h
    obtain ⟨m, rfl⟩ := Nat.exists_eq_add_of_le' (show 1 ≤ m by omega)
    rw [firstWithin] at h ⊢
    split at h
    · next hP =>
      rw [if_pos hP]
      exact h
    · next hP =>
      rw [if_neg hP]
      exact ih h (by omega)

theorem poll_succ (P : ℕ → Bool) (p n : ℕ) :
    poll P p (n + 1) = if P p then (.ok, p + 1) else poll P (p + 1) n := by
  unfold poll
  rw [firstWithin]
  cases P p with
  | true => rfl
  | false =>
    rw [Nat.add_right_comm]
    rfl

theorem poll_bounds (P : ℕ → Bool) (p n : ℕ) : p ≤ (poll P p n).2 ∧ (poll P p n).2 ≤ p + n := by
  unfold poll
  split
  · exact ⟨Nat.le_add_right p n, le_rfl⟩
  · next q hq =>
    have hq := firstWithin_some hq
    dsimp only
    omega

theorem poll_result (P : ℕ → Bool) (p n : ℕ) :
    (poll P p n).1 = .ok ∨ (poll P p n).1 = .errorTimeout := by
  unfold poll
  split
  · exact .inr rfl
  · exact .inl rfl

/-- **An attempt is bounded.** -/
theorem attempt_bounds (b : ℕ → BitVec 8) (data : BitVec 8) (p : ℕ) :
    p ≤ (attempt b data p).2 ∧ (attempt b data p).2 ≤ p + (2 * ps2Timeout + 1) := by
  have hsend := poll_bounds (inputClear b) p ps2Timeout
  have hreceive := poll_bounds (outputFull b) (poll (inputClear b) p ps2Timeout).2 ps2Timeout
  unfold attempt
  dsimp only
  split_ifs <;> dsimp only <;> omega

theorem AnnouncedAt.bounds {b : ℕ → BitVec 8} {port : BitVec 8} {n p q : ℕ}
    (h : AnnouncedAt b port n p q) : p ≤ q ∧ q ≤ p + n := by
  unfold AnnouncedAt at h
  split at h
  · obtain ⟨k, hk, rfl⟩ := h
    have hle := firstWithin_some hk
    omega
  · omega

/-- An announcement ends within any number of polls that reaches its end. -/
theorem AnnouncedAt.of_le {b : ℕ → BitVec 8} {port : BitVec 8} {n m p q : ℕ}
    (h : AnnouncedAt b port n p q) (hle : q ≤ p + m) : AnnouncedAt b port m p q := by
  unfold AnnouncedAt at h ⊢
  split at h
  · next hport =>
    obtain ⟨k, hk, rfl⟩ := h
    rw [if_pos hport]
    exact ⟨k, firstWithin_of_lt hk (by omega), rfl⟩
  · next hport =>
    rw [if_neg hport]
    exact h

/-- Nothing is announced for the first port. -/
theorem takesAnnouncements_of_ne {port : BitVec 8} (hport : port ≠ ps2Port2) (b : ℕ → BitVec 8)
    (data : BitVec 8) (n attempts p : ℕ) : TakesAnnouncements b port data n attempts p := by
  induction attempts generalizing p with
  | zero => trivial
  | succ attempts ih => exact ⟨p, (if_neg hport).mpr rfl, fun _ => ih _⟩

/-! ## The programs on a stream -/

section Stream

variable {b : ℕ → BitVec 8} {s s' : Ps2State ℕ} {p : ℕ} {port data : BitVec 8} {fuel : ℕ}

/-- The state with the stream at a place. -/
def Ps2State.at (s : Ps2State ℕ) (p : ℕ) : Ps2State ℕ := { s with device := p }

theorem portReadByte_returns {reg : BitVec 16} {v : BitVec 8} :
    (portReadByte (streamDevice b) reg).Returns (s.at p) v s' ↔ b p = v ∧ s.at (p + 1) = s' :=
  Traced.returns_modifyGet

theorem portWriteByte_returns {reg : BitVec 16} {v : BitVec 8} {u : Unit} :
    (portWriteByte (streamDevice b) reg v).Returns (s.at p) u s'
      ↔ () = u ∧ s.at p = s' :=
  Traced.returns_modify

theorem ps2InputBufferFull_returns {full : Bool} :
    (ps2InputBufferFull (streamDevice b)).Returns (s.at p) full s'
      ↔ (!inputClear b p) = full ∧ s.at (p + 1) = s' := by
  rw [ps2InputBufferFull, Traced.returns_bind_of fun _ _ => portReadByte_returns,
    Traced.returns_pure]
  rfl

theorem ps2OutputBufferFull_returns {full : Bool} :
    (ps2OutputBufferFull (streamDevice b)).Returns (s.at p) full s'
      ↔ outputFull b p = full ∧ s.at (p + 1) = s' := by
  rw [ps2OutputBufferFull, Traced.returns_bind_of fun _ _ => portReadByte_returns,
    Traced.returns_pure]
  rfl

/-- **The wait without a limit** ends exactly if the input buffer is empty at some time. -/
theorem ps2WaitInputBuffer_returns {u : Unit} :
    (ps2WaitInputBuffer (streamDevice b) fuel).Returns (s.at p) u s'
      ↔ ∃ q, firstWithin (inputClear b) p fuel = some q ∧ s.at (q + 1) = s' := by
  induction fuel generalizing p with
  | zero => exact iff_of_false Traced.not_returns_diverge fun ⟨_, h, _⟩ => by cases h
  | succ fuel ih =>
    rw [ps2WaitInputBuffer, Traced.returns_bind_of fun _ _ => ps2InputBufferFull_returns,
      firstWithin]
    cases inputClear b p with
    | false => exact ih
    | true => simp [Traced.returns_pure]

/-- The wait of `ps2_raw_send_byte`. -/
theorem ps2WaitToSend_returns {n : ℕ} {r : Ps2ErrorCode} :
    (ps2WaitToSend (streamDevice b) n).Returns (s.at p) r s'
      ↔ (poll (inputClear b) p n).1 = r ∧ s.at (poll (inputClear b) p n).2 = s' := by
  induction n generalizing p with
  | zero => exact Traced.returns_pure
  | succ n ih =>
    rw [ps2WaitToSend, Traced.returns_bind_of fun _ _ => ps2InputBufferFull_returns, poll_succ]
    cases inputClear b p with
    | false => exact ih
    | true => exact Traced.returns_pure

/-- The wait of `ps2_receive_byte`. -/
theorem ps2WaitToReceive_returns {n : ℕ} {r : Ps2ErrorCode} :
    (ps2WaitToReceive (streamDevice b) n).Returns (s.at p) r s'
      ↔ (poll (outputFull b) p n).1 = r ∧ s.at (poll (outputFull b) p n).2 = s' := by
  induction n generalizing p with
  | zero => exact Traced.returns_pure
  | succ n ih =>
    rw [ps2WaitToReceive, Traced.returns_bind_of fun _ _ => ps2OutputBufferFull_returns, poll_succ]
    cases outputFull b p with
    | false => exact ih
    | true => exact Traced.returns_pure

/-- The announcement of a byte. -/
theorem announcement_returns {u : Unit} :
    (Traced.when (port = ps2Port2) (ps2SendCommand (streamDevice b) fuel
        ps2CmdSendNextByteToPort2)).Returns (s.at p) u s'
      ↔ ∃ q, AnnouncedAt b port fuel p q ∧ s.at q = s' := by
  unfold Traced.when AnnouncedAt
  by_cases hport : port = ps2Port2
  · simp only [if_pos hport, ps2SendCommand, Traced.returns_bind, ps2WaitInputBuffer_returns]
    constructor
    · rintro ⟨_, _, ⟨k, hk, rfl⟩, _, _, hwrite, hemit⟩
      obtain ⟨-, rfl⟩ := portWriteByte_returns.mp hwrite
      obtain ⟨-, rfl⟩ := Traced.returns_emit.mp hemit
      exact ⟨k + 1, ⟨k, hk, rfl⟩, rfl⟩
    · rintro ⟨_, ⟨k, hk, rfl⟩, rfl⟩
      exact ⟨(), _, ⟨k, hk, rfl⟩, (), _, portWriteByte_returns.mpr ⟨rfl, rfl⟩,
        Traced.returns_emit.mpr ⟨rfl, rfl⟩⟩
  · simp only [if_neg hport, Traced.returns_pure, true_and, exists_eq_left']

/-- **`ps2_raw_send_byte`** is the announcement and a wait. -/
theorem ps2RawSendByte_returns {r : Ps2ErrorCode} :
    (ps2RawSendByte (streamDevice b) fuel port data).Returns (s.at p) r s'
      ↔ ∃ q, AnnouncedAt b port fuel p q ∧ (poll (inputClear b) q ps2Timeout).1 = r
        ∧ s.at (poll (inputClear b) q ps2Timeout).2 = s' := by
  have hsend : ∀ q, (ps2WaitToSend (streamDevice b) ps2Timeout >>= fun result =>
      if result = .ok then do
        portWriteByte (streamDevice b) ps2Data data
        Traced.emit (.sent port data)
        pure .ok
      else do
        Traced.emit (.sendTimeout port data)
        pure .errorTimeout : Ps2Program ℕ Ps2ErrorCode).Returns (s.at q) r s'
      ↔ (poll (inputClear b) q ps2Timeout).1 = r
        ∧ s.at (poll (inputClear b) q ps2Timeout).2 = s' := by
    intro q
    rw [Traced.returns_bind_of fun _ _ => ps2WaitToSend_returns]
    rcases poll_result (inputClear b) q ps2Timeout with hresult | hresult
    · rw [hresult, if_pos rfl, Traced.returns_bind_of fun _ _ => portWriteByte_returns,
        Traced.returns_bind_of fun _ _ => Traced.returns_emit]
      exact Traced.returns_pure
    · rw [hresult, if_neg Ps2ErrorCode.noConfusion,
        Traced.returns_bind_of fun _ _ => Traced.returns_emit]
      exact Traced.returns_pure
  rw [ps2RawSendByte, Traced.returns_bind]
  simp only [announcement_returns]
  constructor
  · rintro ⟨_, _, ⟨q, hq, rfl⟩, h⟩
    exact ⟨q, hq, (hsend q).mp h⟩
  · rintro ⟨q, hq, h⟩
    exact ⟨(), _, ⟨q, hq, rfl⟩, (hsend q).mpr h⟩

/-- **`ps2_receive_byte`** is a wait and a read. -/
theorem ps2ReceiveByte_returns {r : Ps2ErrorCode × BitVec 8} :
    (ps2ReceiveByte (streamDevice b)).Returns (s.at p) r s'
      ↔ if (poll (outputFull b) p ps2Timeout).1 = .ok then
          (.ok, b (poll (outputFull b) p ps2Timeout).2) = r
            ∧ s.at ((poll (outputFull b) p ps2Timeout).2 + 1) = s'
        else (.errorTimeout, 0#8) = r ∧ s.at (poll (outputFull b) p ps2Timeout).2 = s' := by
  rw [ps2ReceiveByte, Traced.returns_bind_of fun _ _ => ps2WaitToReceive_returns]
  split
  · rw [Traced.returns_bind_of fun _ _ => portReadByte_returns,
      Traced.returns_bind_of fun _ _ => Traced.returns_emit]
    exact Traced.returns_pure
  · rw [Traced.returns_bind_of fun _ _ => Traced.returns_emit]
    exact Traced.returns_pure

/-- **The answer to a byte** ends the attempts if it accepts the byte. -/
theorem response_returns {resend : Ps2Program ℕ Ps2ErrorCode} {response : BitVec 8}
    {r : Ps2ErrorCode} {s : Ps2State ℕ} :
    (if response = ps2DevResend then resend
      else if response = ps2DevAck then pure .ok
      else if response = ps2DevEcho ∧ data = ps2DevCmdEcho then pure .ok
      else resend : Ps2Program ℕ Ps2ErrorCode).Returns s r s'
      ↔ if Accepts data response then .ok = r ∧ s = s' else resend.Returns s r s' := by
  by_cases haccepts : Accepts data response
  · have hresend : response ≠ ps2DevResend := by
      rcases haccepts with rfl | ⟨rfl, -⟩ <;> decide
    rw [if_neg hresend, if_pos haccepts]
    rcases haccepts with hack | hecho
    · rw [if_pos hack]
      exact Traced.returns_pure
    · rw [if_pos hecho, ite_self]
      exact Traced.returns_pure
  · obtain ⟨hack, hecho⟩ := not_or.mp haccepts
    rw [if_neg hack, if_neg hecho, ite_self, if_neg haccepts]

/-- **One attempt**, behind its announcement, is as in the stream. -/
theorem ps2SendByteAttempts_returns {n : ℕ} {r : Ps2ErrorCode} :
    (ps2SendByteAttempts (streamDevice b) fuel port data (n + 1)).Returns (s.at p) r s'
      ↔ ∃ q, AnnouncedAt b port fuel p q ∧
        if (attempt b data q).1 then .ok = r ∧ s.at (attempt b data q).2 = s'
        else (ps2SendByteAttempts (streamDevice b) fuel port data n).Returns
          (s.at (attempt b data q).2) r s' := by
  rw [ps2SendByteAttempts, Traced.returns_bind]
  simp only [ps2RawSendByte_returns]
  have hattempt : ∀ q, ((if (poll (inputClear b) q ps2Timeout).1 ≠ .ok then
        ps2SendByteAttempts (streamDevice b) fuel port data n
      else do
        let received ← ps2ReceiveByte (streamDevice b)
        if received.1 ≠ .ok then ps2SendByteAttempts (streamDevice b) fuel port data n
        else if received.2 = ps2DevResend then
          ps2SendByteAttempts (streamDevice b) fuel port data n
        else if received.2 = ps2DevAck then pure .ok
        else if received.2 = ps2DevEcho ∧ data = ps2DevCmdEcho then pure .ok
        else ps2SendByteAttempts (streamDevice b) fuel port data n :
          Ps2Program ℕ Ps2ErrorCode).Returns
            (s.at (poll (inputClear b) q ps2Timeout).2) r s'
      ↔ if (attempt b data q).1 then .ok = r ∧ s.at (attempt b data q).2 = s'
        else (ps2SendByteAttempts (streamDevice b) fuel port data n).Returns
          (s.at (attempt b data q).2) r s') := by
    intro q
    unfold attempt
    dsimp only
    by_cases hsend : (poll (inputClear b) q ps2Timeout).1 ≠ .ok
    · rw [if_pos hsend, if_pos hsend]
      rfl
    rw [if_neg hsend, if_neg hsend]
    generalize (poll (inputClear b) q ps2Timeout).2 = q'
    by_cases hreceive : (poll (outputFull b) q' ps2Timeout).1 = .ok
    · rw [if_neg (not_not.mpr hreceive), Traced.returns_bind_of fun _ _ =>
        ps2ReceiveByte_returns.trans (iff_of_eq (if_pos hreceive))]
      dsimp only
      rw [if_neg (not_not.mpr rfl), response_returns]
      exact iff_of_eq (if_congr decide_eq_true_iff.symm rfl rfl)
    · rw [if_pos hreceive, Traced.returns_bind_of fun _ _ =>
        ps2ReceiveByte_returns.trans (iff_of_eq (if_neg hreceive))]
      dsimp only
      rw [if_pos (show Ps2ErrorCode.errorTimeout ≠ .ok by decide)]
      rfl
  constructor
  · rintro ⟨_, _, ⟨q, hq, rfl, rfl⟩, h⟩
    exact ⟨q, hq, (hattempt q).mp h⟩
  · rintro ⟨q, hq, h⟩
    exact ⟨_, _, ⟨q, hq, rfl, rfl⟩, (hattempt q).mpr h⟩

/-- **Announced in time, the attempts end**, with a result and after a number of reads that
is known before. -/
theorem exists_returns_of_takesAnnouncements {n attempts : ℕ}
    (h : TakesAnnouncements b port data n attempts p) :
    ∃ r s', (ps2SendByteAttempts (streamDevice b) n port data attempts).Returns (s.at p) r s'
      ∧ (r = .ok ∨ r = .errorNoAck)
      ∧ s'.device ≤ p + attempts * (n + (2 * ps2Timeout + 1)) := by
  induction attempts generalizing p with
  | zero =>
    exact ⟨.errorNoAck, s.at p, Traced.returns_pure.mpr ⟨rfl, rfl⟩, .inr rfl,
      Nat.le_add_right p _⟩
  | succ attempts ih =>
    obtain ⟨q, hq, hrest⟩ := h
    have hbounds := hq.bounds
    have hattempt := attempt_bounds b data q
    cases haccepted : (attempt b data q).1 with
    | true =>
      refine ⟨.ok, s.at (attempt b data q).2, ps2SendByteAttempts_returns.mpr ⟨q, hq, ?_⟩,
        .inl rfl, ?_⟩
      · rw [if_pos haccepted]
        exact ⟨rfl, rfl⟩
      · show (attempt b data q).2 ≤ _
        rw [Nat.succ_mul]
        omega
    | false =>
      obtain ⟨r, s', hreturns, hr, hle⟩ := ih (hrest haccepted)
      refine ⟨r, s', ps2SendByteAttempts_returns.mpr ⟨q, hq, ?_⟩, hr, ?_⟩
      · rw [haccepted]
        exact hreturns
      · rw [Nat.succ_mul]
        omega

/-- **Attempts that end were announced in time**: within their number of reads. -/
theorem takesAnnouncements_of_returns {attempts : ℕ} {r : Ps2ErrorCode}
    (h : (ps2SendByteAttempts (streamDevice b) fuel port data attempts).Returns (s.at p) r s') :
    p ≤ s'.device
      ∧ ∀ n, s'.device ≤ p + n → TakesAnnouncements b port data n attempts p := by
  induction attempts generalizing p with
  | zero =>
    obtain ⟨-, rfl⟩ := Traced.returns_pure.mp h
    exact ⟨le_rfl, fun _ _ => trivial⟩
  | succ attempts ih =>
    obtain ⟨q, hq, hrest⟩ := ps2SendByteAttempts_returns.mp h
    have hbounds := hq.bounds
    have hattempt := attempt_bounds b data q
    cases haccepted : (attempt b data q).1 with
    | true =>
      rw [if_pos haccepted] at hrest
      obtain ⟨-, rfl⟩ := hrest
      have hdevice : (s.at (attempt b data q).2).device = (attempt b data q).2 := rfl
      refine ⟨by omega, fun n hn => ⟨q, hq.of_le (by omega), fun hnot => ?_⟩⟩
      rw [haccepted] at hnot
      cases hnot
    | false =>
      rw [haccepted] at hrest
      obtain ⟨hle, htakes⟩ := ih hrest
      exact ⟨by omega, fun n hn => ⟨q, hq.of_le (by omega), fun _ => htakes n (by omega)⟩⟩

end Stream

/-- **Sending a byte ends** within a number of reads, with a result of the two. -/
def SendsWithin (s : Ps2State ℕ) (b : ℕ → BitVec 8) (port data : BitVec 8) (reads : ℕ) : Prop :=
  ∃ fuel t r s', (ps2SendByte (streamDevice b) fuel port data).Runs (s.at 0) t r s'
    ∧ (r = .ok ∨ r = .errorNoAck) ∧ s'.device ≤ reads

/-- **Sending a byte is bounded** for any streams and bytes, exactly if it is for the first
port, or there is a limit within which the controller takes the announcements of the
second one. -/
theorem ps2SendByte_bounded_iff (s : Ps2State ℕ) (port : BitVec 8)
    (inputs : Set ((ℕ → BitVec 8) × BitVec 8)) :
    (∃ factor, ∀ x ∈ inputs,
        SendsWithin s x.1 port x.2 (factor * (ps2MaxResends * ps2Timeout)))
      ↔ (port = ps2Port2 →
        ∃ n, ∀ x ∈ inputs, TakesAnnouncements x.1 port x.2 n ps2MaxResends 0) := by
  have hsends : ∀ n, (∀ x ∈ inputs, TakesAnnouncements x.1 port x.2 n ps2MaxResends 0) →
      ∀ x ∈ inputs, SendsWithin s x.1 port x.2 ((n + 3) * (ps2MaxResends * ps2Timeout)) := by
    intro n htakes x hx
    obtain ⟨r, s', ⟨t, hrun⟩, hr, hle⟩ := exists_returns_of_takesAnnouncements (htakes x hx)
    refine ⟨n, t, r, s', hrun, hr, hle.trans ?_⟩
    have hfactor : n + (2 * ps2Timeout + 1) ≤ (n + 3) * ps2Timeout := by
      unfold ps2Timeout
      omega
    rw [Nat.zero_add, Nat.mul_left_comm]
    exact Nat.mul_le_mul_left _ hfactor
  constructor
  · rintro ⟨factor, hall⟩ -
    refine ⟨factor * (ps2MaxResends * ps2Timeout), fun x hx => ?_⟩
    obtain ⟨fuel, t, r, s', hrun, -, hle⟩ := hall x hx
    exact (takesAnnouncements_of_returns ⟨t, hrun⟩).2 _ (by omega)
  · intro htakes
    by_cases hport : port = ps2Port2
    · obtain ⟨n, hn⟩ := htakes hport
      exact ⟨n + 3, hsends n hn⟩
    · exact ⟨3, hsends 0 fun x _ => takesAnnouncements_of_ne hport _ _ _ _ _⟩

/-- **A controller whose input buffer stays full**: sending to the second port does not
end. -/
theorem ps2SendByte_not_bounded :
    ¬ ∃ reads, SendsWithin (.initial 0) (fun _ => 0x02#8) ps2Port2 ps2DevCmdReset reads := by
  rintro ⟨reads, fuel, t, r, s', hrun, -⟩
  have hfull : ∀ p, ¬ inputClear (fun _ => 0x02#8) p = true := fun _ => by
    show ¬ (0x02#8 &&& 1#8 <<< 1 == 0#8) = true
    decide
  have hnever : ∀ p n, firstWithin (inputClear fun _ => 0x02#8) p n = none := by
    intro p n
    induction n generalizing p with
    | zero => rfl
    | succ n ih => exact (if_neg (hfull p)).trans (ih (p + 1))
  obtain ⟨q, ⟨k, hk, -⟩, -⟩ := ps2SendByteAttempts_returns.mp ⟨t, hrun⟩
  rw [hnever] at hk
  cases hk
