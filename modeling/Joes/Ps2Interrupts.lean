import Joes.Ps2Keyboard

/-!
# The keyboard's interrupts

Two properties of `ps2_kbd_irq_callback` over any number of interrupts.

Where the bytes received are complete sequences, every one of them becomes its event, the
break of Print Screen apart (`irqCallbacks_decode_iff`). An interrupt receives at most one
byte and makes of the driver's state what the state machine makes of it with this byte
(`ps2KbdIrqCallback_events`). So the events of a run in which no interrupt was without a byte
are those of the state machine over the list of bytes (`irqCallbacks_decode`), and what is left
is a statement about lists: the state machine is in its normal state again after each sequence,
so the events of several sequences are those of the first one and then those of the others.
That is why one sequence which gives no event, or the wrong one, spoils every list it is in:
no sequence gives more than one event, and there is none to make up for the missing one.

The driver is to do nothing before it was initialised, but an interrupt that comes too early
takes it for initialised (`driverRun_inert_iff`). In the uninitialised state the state machine
logs that its default branch should not be reached, and names no next state. Then the normal
state is assigned, as after every event, so whatever the byte is the state after an interrupt is
not the uninitialised one (`ps2KbdIrqCallback_state_ne`). The rest follows from an invariant of
the runs in which no interrupt comes too early: the driver is initialised exactly if a call of
`ps2_kbd_init` has returned `PS2_KBD_OK` (`DriverRun.state_iff`). Up to the first interrupt that
finds the driver uninitialised the run is inert by it, and that interrupt is the first call that
is not.
-/

section Interrupts

variable {δ : Type} {dev : PortDevice δ} {s s' : Ps2State δ} {t : List Ps2Event}

/-! ## Complete sequences -/

/-- The callbacks of `n` interrupts. -/
def irqCallbacks (dev : PortDevice δ) : ℕ → Ps2Program δ Unit
  | 0 => pure ()
  | n + 1 => do
    ps2KbdIrqCallback dev
    irqCallbacks dev n

/-- The key event an event appends. -/
def Ps2Event.appendedEvent : Ps2Event → Option KeyEvent
  | appended keyEvent => some keyEvent
  | _ => none

/-- What one interrupt receives, and what it appends. -/
theorem ps2KbdIrqCallback_events {u : Unit} (h : (ps2KbdIrqCallback dev).Runs s t u s') :
    ∃ v, (t.filterMap Ps2Event.receivedByte = [v] ∨ t.filterMap Ps2Event.receivedByte = []) ∧
      t.filterMap Ps2Event.appendedEvent = (ps2KbdReceive s.kbd v).1.toList ∧
      s'.kbd = (ps2KbdReceive s.kbd v).2 := by
  obtain ⟨v, t₁, ht₁, rfl, hkbd⟩ := ps2KbdIrqCallback_runs h
  refine ⟨v, ?_, ?_, hkbd⟩
  · rcases ht₁ with rfl | rfl <;> cases (ps2KbdReceive s.kbd v).1
    · exact .inl rfl
    · exact .inl rfl
    · exact .inr rfl
    · exact .inr rfl
  · rcases ht₁ with rfl | rfl <;> cases (ps2KbdReceive s.kbd v).1 <;> rfl

/-- An interrupt receives at most one byte. -/
theorem length_received_irqCallbacks {n : ℕ} {u : Unit}
    (h : (irqCallbacks dev n).Runs s t u s') : (t.filterMap Ps2Event.receivedByte).length ≤ n := by
  induction n generalizing s t with
  | zero =>
    obtain ⟨-, -, rfl⟩ := Traced.runs_pure.mp h
    exact le_rfl
  | succ n ih =>
    rw [irqCallbacks, Traced.runs_bind] at h
    obtain ⟨_, s₁, t₁, t₂, hirq, h, rfl⟩ := h
    obtain ⟨v, hreceived, -⟩ := ps2KbdIrqCallback_events hirq
    have hrest := ih h
    rw [List.filterMap_append, List.length_append]
    rcases hreceived with hv | hnone
    · rw [hv, List.length_singleton]
      omega
    · rw [hnone, List.length_nil]
      omega

/-- Where every interrupt receives a byte, the bytes are decoded. -/
theorem irqCallbacks_decode {n : ℕ} {u : Unit} (h : (irqCallbacks dev n).Runs s t u s')
    (hlen : (t.filterMap Ps2Event.receivedByte).length = n) :
    (t.filterMap Ps2Event.appendedEvent, s'.kbd) =
      ps2KbdDecode s.kbd (t.filterMap Ps2Event.receivedByte) := by
  induction n generalizing s t with
  | zero =>
    obtain ⟨-, rfl, rfl⟩ := Traced.runs_pure.mp h
    rfl
  | succ n ih =>
    rw [irqCallbacks, Traced.runs_bind] at h
    obtain ⟨_, s₁, t₁, t₂, hirq, h, rfl⟩ := h
    obtain ⟨v, hreceived, hevents, hkbd⟩ := ps2KbdIrqCallback_events hirq
    have hle := length_received_irqCallbacks h
    rw [List.filterMap_append, List.length_append] at hlen
    rcases hreceived with hv | hnone
    · rw [hv, List.length_singleton] at hlen
      have hrest := ih h (by omega)
      rw [List.filterMap_append, List.filterMap_append, hv, hevents, List.singleton_append,
        ps2KbdDecode_cons, ← hkbd, ← hrest]
    · rw [hnone, List.length_nil] at hlen
      omega

theorem ps2KbdIrqCallback_total : (ps2KbdIrqCallback dev).Total :=
  .bind ps2ReceiveByte_total fun _ => .bind .modifyGet fun keyEvent => by
    cases keyEvent with
    | none => exact .pure
    | some keyEvent => exact .emit

theorem irqCallbacks_total (dev : PortDevice δ) (n : ℕ) : (irqCallbacks dev n).Total := by
  induction n with
  | zero => exact .pure
  | succ n ih => exact .bind ps2KbdIrqCallback_total fun _ => ih

/-- **The decoder.** Interrupts for a list of complete sequences return, whatever
the device does. If they receive the bytes of the sequences and the driver was
in its normal state, it is in it again, with one event for each sequence of the
right key and kind, if and only if no sequence is the break of Print Screen and
none is Pause where its event is expected to be other than a release. -/
theorem irqCallbacks_decode_iff (dev : PortDevice δ) (hstate : s.kbd.state = .normal)
    (seqs : List KeySequence) (pauseType : KeyEventType) :
    ∃ t s', (irqCallbacks dev (seqs.flatMap KeySequence.bytes).length).Runs s t () s' ∧
      (t.filterMap Ps2Event.receivedByte = seqs.flatMap KeySequence.bytes →
        ((t.filterMap Ps2Event.appendedEvent).map KeyEvent.label
              = seqs.map (KeySequence.expected pauseType) ∧ s'.kbd.state = .normal
          ↔ ∀ seq ∈ seqs, seq ≠ .printScreenBreakCode ∧
              (seq = .pauseCode → pauseType = .released))) := by
  obtain ⟨t, _, s', hrun⟩ := irqCallbacks_total dev
    (seqs.flatMap KeySequence.bytes).length s
  refine ⟨t, s', hrun, fun hreceived => ?_⟩
  have hdecode := irqCallbacks_decode hrun (congrArg List.length hreceived)
  rw [hreceived] at hdecode
  obtain ⟨hlabels, hnormal⟩ := KeySequence.decode_flatMap hstate seqs
  rw [← hdecode] at hlabels hnormal
  rw [and_iff_left hnormal, hlabels, flatMap_eq_map_iff KeySequence.length_decoded_le]
  exact forall₂_congr fun seq _ => KeySequence.decoded_eq_iff seq

/-! ## Before the driver is initialised -/

/-- A call of the driver's interface. -/
inductive DriverCall where
  | irqCallback
  | init (port : BitVec 8)
  deriving DecidableEq, Repr

/-- **A call that returned**: the driver's state before and after it, what
happened during it, and its result, which only `ps2_kbd_init` has. -/
structure DriverStep where
  call : DriverCall
  before : Ps2KbdState
  trace : List Ps2Event
  result : Option Ps2KbdErrorCode
  after : Ps2KbdState
  deriving DecidableEq

/-- **A run of the driver**: calls one after the other, in any order. -/
inductive DriverRun (dev : PortDevice δ) : Ps2State δ → List DriverStep → Ps2State δ → Prop where
  | nil {a : Ps2State δ} : DriverRun dev a [] a
  | irqCallback {a b c : Ps2State δ} {steps : List DriverStep} {t : List Ps2Event} :
      DriverRun dev a steps b → (ps2KbdIrqCallback dev).Runs b t () c →
      DriverRun dev a (steps ++ [⟨.irqCallback, b.kbd.state, t, none, c.kbd.state⟩]) c
  | init {a b c : Ps2State δ} {steps : List DriverStep} {fuel : ℕ} {port : BitVec 8}
      {t : List Ps2Event} {r : Ps2KbdErrorCode} :
      DriverRun dev a steps b → (ps2KbdInit dev fuel port).Runs b t r c →
      DriverRun dev a (steps ++ [⟨.init port, b.kbd.state, t, some r, c.kbd.state⟩]) c

/-- **The driver is inert** until it is initialised: as long as no `ps2_kbd_init`
has returned `PS2_KBD_OK`, the driver is uninitialised and appends nothing, and
it says that it was initialised before only if it was. -/
structure Inert (steps : List DriverStep) : Prop where
  uninitialized : ∀ pre step, pre ++ [step] <+: steps →
    (∀ x ∈ pre ++ [step], x.result ≠ some .ok) →
      step.after = .uninitialized ∧ ∀ keyEvent, .appended keyEvent ∉ step.trace
  refuses : ∀ pre step, pre ++ [step] <+: steps →
    step.result = some .errorAlreadyInitialized → ∃ x ∈ pre, x.result = some .ok

/-- No byte puts the driver back into the uninitialised state. -/
theorem ps2KbdSwitchState_ne {state state' : Ps2KbdState} {v : BitVec 8}
    (h : ps2KbdSwitchState state v = some state') : state' ≠ .uninitialized := by
  rintro rfl
  cases state <;> unfold ps2KbdSwitchState at h <;> repeat' split at h
  all_goals cases h

theorem ps2KbdReceive_state_ne (kbd : Ps2Kbd) (v : BitVec 8) :
    (ps2KbdReceive kbd v).2.state ≠ .uninitialized := by
  unfold ps2KbdReceive
  split
  · next h => exact ps2KbdSwitchState_ne h
  · exact Ps2KbdState.noConfusion

theorem ps2KbdIrqCallback_state_ne {u : Unit} (h : (ps2KbdIrqCallback dev).Runs s t u s') :
    s'.kbd.state ≠ .uninitialized := by
  obtain ⟨v, -, -, hkbd⟩ := ps2KbdIrqCallback_events h
  rw [hkbd]
  exact ps2KbdReceive_state_ne s.kbd v

/-- Some call initialised the driver. -/
def HasInitialized (steps : List DriverStep) : Prop := ∃ x ∈ steps, x.result = some .ok

/-- No interrupt finds the driver uninitialised. -/
def InterruptsInitialized (steps : List DriverStep) : Prop :=
  ∀ step ∈ steps, step.call = .irqCallback → step.before ≠ .uninitialized

variable {steps : List DriverStep} {step : DriverStep}

theorem hasInitialized_concat :
    HasInitialized (steps ++ [step]) ↔ HasInitialized steps ∨ step.result = some .ok := by
  simp only [HasInitialized, List.mem_append, List.mem_singleton, or_and_right, exists_or,
    exists_eq_left]

theorem interruptsInitialized_concat :
    InterruptsInitialized (steps ++ [step]) ↔ InterruptsInitialized steps ∧
      (step.call = .irqCallback → step.before ≠ .uninitialized) := by
  simp only [InterruptsInitialized, List.forall_mem_append, List.forall_mem_singleton]

/-- A run is inert if it was before its last call and that call is. -/
theorem inert_concat :
    Inert (steps ++ [step]) ↔ Inert steps ∧
      (¬ HasInitialized (steps ++ [step]) →
        step.after = .uninitialized ∧ ∀ keyEvent, .appended keyEvent ∉ step.trace) ∧
      (step.result = some .errorAlreadyInitialized → HasInitialized steps) := by
  have hinit : ∀ {l : List DriverStep},
      (∀ x ∈ l, x.result ≠ some .ok) ↔ ¬ HasInitialized l := by
    intro l
    simp only [HasInitialized, not_exists, not_and, ne_eq]
  constructor
  · intro h
    refine ⟨⟨fun pre x hpre => h.uninitialized pre x (hpre.trans (List.prefix_append _ _)),
      fun pre x hpre => h.refuses pre x (hpre.trans (List.prefix_append _ _))⟩, ?_, ?_⟩
    · exact fun hno => h.uninitialized steps step List.prefix_rfl (hinit.mpr hno)
    · exact h.refuses steps step List.prefix_rfl
  · rintro ⟨h, hquiet, hrefuse⟩
    constructor
    · intro pre x hpre hno
      rcases List.prefix_concat_iff.mp hpre with heq | hpre
      · obtain ⟨rfl, rfl⟩ := List.append_singleton_inj.mp heq
        exact hquiet (hinit.mp hno)
      · exact h.uninitialized pre x hpre hno
    · intro pre x hpre hresult
      rcases List.prefix_concat_iff.mp hpre with heq | hpre
      · obtain ⟨rfl, rfl⟩ := List.append_singleton_inj.mp heq
        exact hrefuse hresult
      · exact h.refuses pre x hpre hresult

/-- **The invariant**: where no interrupt came too early, the driver is
initialised exactly if a call has done it. -/
theorem DriverRun.state_iff (h : DriverRun dev s steps s')
    (hstate : s.kbd.state = .uninitialized) (hirq : InterruptsInitialized steps) :
    s'.kbd.state = .uninitialized ↔ ¬ HasInitialized steps := by
  induction h with
  | nil => exact iff_of_true hstate fun ⟨x, hx, _⟩ => List.not_mem_nil hx
  | irqCallback hrun hstep ih =>
    rw [interruptsInitialized_concat] at hirq
    have hafter := ps2KbdIrqCallback_state_ne hstep
    have hdone := not_not.mp fun hno => hirq.2 rfl ((ih hirq.1).mpr hno)
    exact iff_of_false hafter fun hno => hno (hasInitialized_concat.mpr (.inl hdone))
  | init hrun hstep ih =>
    rw [interruptsInitialized_concat] at hirq
    have hbefore := ih hirq.1
    rw [hasInitialized_concat]
    obtain ⟨-, -, hresult⟩ := ps2KbdInit_runs hstep
    rcases hresult with ⟨hne, rfl, hsame⟩ | ⟨huninit, rfl, hafter⟩ | ⟨huninit, rfl, hnormal⟩
    · rw [hsame, hbefore]
      simp
    · rw [hafter]
      simpa using hbefore.mp huninit
    · rw [hnormal]
      simp

/-- **The driver is inert until initialised** if and only if no interrupt finds it
uninitialised. In every run of the driver, whatever the devices answer. -/
theorem driverRun_inert_iff (hstate : s.kbd.state = .uninitialized)
    (h : DriverRun dev s steps s') : Inert steps ↔ InterruptsInitialized steps := by
  induction h with
  | nil =>
    refine iff_of_true ⟨fun pre x hpre => ?_, fun pre x hpre => ?_⟩
      fun step hstep => absurd hstep List.not_mem_nil
    · exact absurd (List.prefix_nil.mp hpre) (by simp)
    · exact absurd (List.prefix_nil.mp hpre) (by simp)
  | irqCallback hrun hstep ih =>
    rw [inert_concat, interruptsInitialized_concat, ih]
    refine and_congr_right fun hirq => ?_
    have hbefore := hrun.state_iff hstate hirq
    have hafter := ps2KbdIrqCallback_state_ne hstep
    constructor
    · intro hinert _ huninit
      refine hafter (hinert.1 fun hdone => ?_).1
      rcases hasInitialized_concat.mp hdone with hbefore' | hresult
      · exact hbefore.mp huninit hbefore'
      · cases hresult
    · intro hne
      refine ⟨fun hno => ?_, fun hresult => by simp at hresult⟩
      have hdone := not_not.mp fun hno => hne rfl (hbefore.mpr hno)
      exact absurd (hasInitialized_concat.mpr (.inl hdone)) hno
  | init hrun hstep ih =>
    rw [inert_concat, interruptsInitialized_concat, ih]
    refine and_congr_right fun hirq => iff_of_true ⟨?_, ?_⟩ fun hcall => by cases hcall
    · intro hno
      obtain ⟨-, ⟨t', rfl, ht'⟩, hresult⟩ := ps2KbdInit_runs hstep
      refine ⟨?_, fun keyEvent hmem => ?_⟩
      · rcases hresult with ⟨hne, rfl, -⟩ | ⟨-, -, hafter⟩ | ⟨-, rfl, -⟩
        · exact absurd (hasInitialized_concat.mpr (.inl (not_not.mp fun hn =>
            hne ((hrun.state_iff hstate hirq).mpr hn)))) hno
        · exact hafter
        · exact absurd (hasInitialized_concat.mpr (.inr rfl)) hno
      · rcases List.mem_cons.mp hmem with heq | hmem
        · cases heq
        · exact ht' _ hmem
    · intro hrefused
      obtain ⟨-, -, hresult⟩ := ps2KbdInit_runs hstep
      rcases hresult with ⟨hne, -, -⟩ | ⟨-, rfl, -⟩ | ⟨-, rfl, -⟩
      · exact not_not.mp fun hn => hne ((hrun.state_iff hstate hirq).mpr hn)
      · cases hrefused
      · cases hrefused

end Interrupts

/-- A controller with a list of bytes to deliver, and nothing else. -/
def byteQueue : PortDevice (List (BitVec 8)) where
  read port bytes :=
    if port = ps2Status then (if bytes.isEmpty then 0#8 else 1#8, bytes)
    else (bytes.headD 0#8, bytes.tail)
  write _ _ bytes := bytes

/-- The drivers with the keyboard ready and bytes to come. -/
def readyState (bytes : List (BitVec 8)) : Ps2State (List (BitVec 8)) :=
  { Ps2State.initial bytes with kbd := { Ps2Kbd.initial with state := .normal } }

/-- A key is pressed and released. -/
theorem irqCallbacks_decode_iff_keyA :
    let seqs : List KeySequence :=
      [.makeCode 0x1e#8 (by decide), .breakCode 0x1e#8 (by decide)]
    ∃ t s', (irqCallbacks byteQueue 2).Runs (readyState [0x1e#8, 0x9e#8]) t () s' ∧
      (t.filterMap Ps2Event.receivedByte = [0x1e#8, 0x9e#8] →
        ((t.filterMap Ps2Event.appendedEvent).map KeyEvent.label
              = [(.keyA, .pressed), (.keyA, .released)] ∧ s'.kbd.state = .normal
          ↔ ∀ seq ∈ seqs, seq ≠ .printScreenBreakCode ∧
              (seq = .pauseCode → KeyEventType.pressed = .released))) :=
  irqCallbacks_decode_iff byteQueue
    (show (readyState [0x1e#8, 0x9e#8]).kbd.state = .normal from rfl)
    [.makeCode 0x1e#8 (by decide), .breakCode 0x1e#8 (by decide)] .pressed

/-- Print Screen is released, and there is no event. -/
theorem irqCallbacks_printScreenBreak :
    ¬ ∀ t s', (irqCallbacks byteQueue 4).Runs
        (readyState KeySequence.printScreenBreakCode.bytes) t () s' →
      t.filterMap Ps2Event.receivedByte = KeySequence.printScreenBreakCode.bytes →
        (t.filterMap Ps2Event.appendedEvent).map KeyEvent.label
          = [(.keyPrintScreen, .released)] := by
  intro h
  cases h _ _ rfl rfl

/-- An interrupt that comes before the driver is initialised, with a byte. -/
def earlyInterrupt : List DriverStep :=
  [⟨.irqCallback, .uninitialized,
    [.received 0x1e#8, .appended ⟨.keyUnknown, .pressed, 0#16⟩], none, .normal⟩]

theorem driverRun_earlyInterrupt :
    ∃ s', DriverRun byteQueue (Ps2State.initial [0x1e#8]) earlyInterrupt s' := by
  have hrun : ∃ s', (ps2KbdIrqCallback byteQueue).Runs (Ps2State.initial [0x1e#8])
      [.received 0x1e#8, .appended ⟨.keyUnknown, .pressed, 0#16⟩] () s' ∧
        s'.kbd.state = .normal := ⟨_, rfl, rfl⟩
  obtain ⟨s', hrun, hnormal⟩ := hrun
  have hdriver := DriverRun.irqCallback DriverRun.nil hrun
  rw [hnormal] at hdriver
  exact ⟨s', hdriver⟩

/-- A driver that an interrupt finds uninitialised: it takes the byte for a scan
code, appends an event, and is ready from then on. -/
theorem driverRun_inert_iff_early :
    ∃ s', DriverRun byteQueue (Ps2State.initial [0x1e#8]) earlyInterrupt s' ∧
      (Inert earlyInterrupt ↔ InterruptsInitialized earlyInterrupt) := by
  obtain ⟨s', hrun⟩ := driverRun_earlyInterrupt
  exact ⟨s', hrun, driverRun_inert_iff rfl hrun⟩

/-- That run is not inert. -/
theorem driverRun_not_inert :
    ¬ ∀ (steps : List DriverStep) (s' : Ps2State (List (BitVec 8))),
      DriverRun byteQueue (Ps2State.initial [0x1e#8]) steps s' → Inert steps := by
  intro h
  obtain ⟨s', hrun⟩ := driverRun_earlyInterrupt
  have hinert := h earlyInterrupt s' hrun
  have hquiet := hinert.uninitialized [] _ List.prefix_rfl (by simp)
  cases hquiet.1
