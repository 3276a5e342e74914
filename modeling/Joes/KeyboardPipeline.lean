import Joes.DrainedQueue
import Joes.InterruptHandler
import Joes.Ps2Interrupts

/-!
# From the keyboard to the screen

The keyboard's interrupts put key events into a buffer, and the timer's interrupts
print what is in it. Nothing says in which order they come. `InterruptRun` is any
sequence of interrupts, where the devices do what they want between two of them, and
`interruptRun_text` says what is on the screen after it: the texts of the events that
a queue of 32 elements gives to a consumer that drains it at every tick.

With the decoder before the buffer and the layout behind it, this is what the keyboard
is for: as long as no more than 32 events come between two ticks, what was typed is
printed (`interruptRun_typed`).
-/

/-- What an event of the handler does to the queue of key events: the keyboard puts
one in, and the timer's interrupt, which ends with its acknowledgement, drains it. -/
def HandlerEvent.queueAction : HandlerEvent → Option (DrainAction KeyEvent)
  | .ps2 (.appended keyEvent) => some (.put keyEvent)
  | .eoi irq => if irq = 0#8 then some .drain else none
  | _ => none

/-- The character an event puts on the screen. -/
def HandlerEvent.screenChar : HandlerEvent → Option (BitVec 8)
  | .printed e => e.putChar
  | _ => none

/-- The byte an event receives from the keyboard. -/
def HandlerEvent.keyboardByte : HandlerEvent → Option (BitVec 8)
  | .ps2 e => e.receivedByte
  | _ => none

/-- The actions on the queue of key events in a trace. -/
def queueActions (t : List HandlerEvent) : List (DrainAction KeyEvent) :=
  t.filterMap HandlerEvent.queueAction

/-- The text on the screen after a trace. -/
def screenText (t : List HandlerEvent) : List (BitVec 8) := t.filterMap HandlerEvent.screenChar

/-- The bytes received from the keyboard in a trace. -/
def keyboardBytes (t : List HandlerEvent) : List (BitVec 8) :=
  t.filterMap HandlerEvent.keyboardByte

section Pipeline

variable {δ : Type} {env : HandlerEnv} {dev : PortDevice δ} {fuel : ℕ} {stack : InterruptStackFrame}
  {s s' s₁ : KernelState δ} {t t' : List HandlerEvent} {q : List KeyEvent} {pre : List KeyEvent}

/-- The state with other devices. -/
def KernelState.withDevice (s : KernelState δ) (d : δ) : KernelState δ :=
  { s with ps2 := { s.ps2 with device := d } }

/-- **A run of interrupts** that the handler returns from, with any frames. Before each
one the devices may have changed. -/
inductive InterruptRun (env : HandlerEnv) (dev : PortDevice δ) (fuel : ℕ) :
    KernelState δ → List HandlerEvent → KernelState δ → Prop where
  | nil {s : KernelState δ} : InterruptRun env dev fuel s [] s
  | cons {s s₁ s' : KernelState δ} {t t' : List HandlerEvent} {stack : InterruptStackFrame}
      {d : δ} : (interruptHandler env dev fuel stack).Runs (s.withDevice d) t .returned s₁ →
      InterruptRun env dev fuel s₁ t' s' → InterruptRun env dev fuel s (t ++ t') s'

/-! ## Traces -/

theorem queueActions_append : queueActions (t ++ t') = queueActions t ++ queueActions t' :=
  List.filterMap_append

theorem screenText_append : screenText (t ++ t') = screenText t ++ screenText t' :=
  List.filterMap_append

theorem keyboardBytes_append : keyboardBytes (t ++ t') = keyboardBytes t ++ keyboardBytes t' :=
  List.filterMap_append

/-- A message is nothing but bytes for the logger. -/
theorem filterMap_message {β : Type} {f : HandlerEvent → Option β}
    (hf : ∀ c, f (.logged c) = none) (b : LoggingBackend) (level : LoggingLevel)
    (text : List (BitVec 8)) : (env.message b level text).filterMap f = [] := by
  refine List.filterMap_eq_nil_iff.mpr fun e he => ?_
  unfold HandlerEnv.message at he
  split at he
  · obtain ⟨c, -, rfl⟩ := List.mem_map.mp he
    exact hf c
  · cases he

/-- What is done for key events is nothing but bytes for the screen and the logger. -/
theorem filterMap_keyEventOutput {β : Type} {f : HandlerEvent → Option β}
    (hf : ∀ c, f (.logged c) = none) (hprinted : ∀ e, f (.printed e) = none)
    (b : LoggingBackend) (q : List KeyEvent) :
    (q.flatMap (env.keyEventOutput b)).filterMap f = [] := by
  refine List.filterMap_eq_nil_iff.mpr fun e he => ?_
  obtain ⟨keyEvent, -, he⟩ := List.mem_flatMap.mp he
  rcases List.mem_append.mp he with he | he
  · obtain ⟨c, -, rfl⟩ := List.mem_map.mp he
    exact hprinted _
  · exact List.filterMap_eq_nil_iff.mp (filterMap_message hf b .info keyEvent.text) e he

/-- **What is printed for key events** is their text. -/
theorem screenText_keyEventOutput (b : LoggingBackend) (q : List KeyEvent) :
    screenText (q.flatMap (env.keyEventOutput b)) = q.flatMap KeyEvent.text := by
  induction q with
  | nil => rfl
  | cons e q ih =>
    rw [List.flatMap_cons, List.flatMap_cons, screenText_append, ih]
    have hmessage : screenText (env.message b .info e.text) = [] :=
      filterMap_message (fun _ => rfl) b .info e.text
    have htext : screenText (e.text.map fun c => .printed (.terminalPutChar c)) = e.text := by
      unfold screenText
      rw [List.filterMap_map]
      exact List.filterMap_some
    rw [HandlerEnv.keyEventOutput, screenText_append, hmessage, htext, List.append_nil]

/-! ## The decoder -/

/-- Two states of the driver that decode alike: they may differ in their buffers. -/
def SameDecoder (kbd kbd' : Ps2Kbd) : Prop :=
  kbd.state = kbd'.state ∧ kbd.modifiers = kbd'.modifiers

variable {kbd kbd' : Ps2Kbd}

theorem SameDecoder.receive (h : SameDecoder kbd kbd') (c : BitVec 8) :
    (ps2KbdReceive kbd c).1 = (ps2KbdReceive kbd' c).1 ∧
      SameDecoder (ps2KbdReceive kbd c).2 (ps2KbdReceive kbd' c).2 := by
  obtain ⟨hstate, hmods⟩ := h
  unfold ps2KbdReceive
  rw [← hstate, ← hmods]
  cases ps2KbdSwitchState kbd.state c with
  | none => exact ⟨rfl, rfl, rfl⟩
  | some state => exact ⟨rfl, rfl, rfl⟩

theorem SameDecoder.decode (h : SameDecoder kbd kbd') (scancodes : List (BitVec 8)) :
    (ps2KbdDecode kbd scancodes).1 = (ps2KbdDecode kbd' scancodes).1 ∧
      SameDecoder (ps2KbdDecode kbd scancodes).2 (ps2KbdDecode kbd' scancodes).2 := by
  induction scancodes generalizing kbd kbd' with
  | nil => exact ⟨rfl, h⟩
  | cons c scancodes ih =>
    obtain ⟨hevent, hnext⟩ := h.receive c
    obtain ⟨hevents, hend⟩ := ih hnext
    rw [ps2KbdDecode_cons, ps2KbdDecode_cons, hevent, hevents]
    exact ⟨rfl, hend⟩

/-! ## The effect of interrupts -/

/-- **What a trace has done**, from a state whose buffer holds `q` on: the screen shows
what the queue has given to the timer's interrupts, the buffer holds what is left in
it, and as long as every interrupt of the keyboard finds a byte, what was put in are
the events of the bytes. -/
structure InterruptEffect (q : List KeyEvent) (s : KernelState δ) (t : List HandlerEvent)
    (s' : KernelState δ) : Prop where
  text : screenText t =
    (drainRun kbdKeyEventBufferSize q (queueActions t)).1.flatMap KeyEvent.text
  holds : s'.ps2.kbd.keyEvents.Holds (drainRun kbdKeyEventBufferSize q (queueActions t)).2
  decoded : .ps2 .receiveTimeout ∉ t →
    elementsPut (queueActions t) = (ps2KbdDecode s.ps2.kbd (keyboardBytes t)).1 ∧
      SameDecoder s'.ps2.kbd (ps2KbdDecode s.ps2.kbd (keyboardBytes t)).2

namespace InterruptEffect

theorem nil (hq : s.ps2.kbd.keyEvents.Holds q) : InterruptEffect q s [] s :=
  ⟨rfl, hq, fun _ => ⟨rfl, rfl, rfl⟩⟩

/-- Two traces in sequence. -/
theorem append (h : InterruptEffect q s t s₁)
    (h' : InterruptEffect (drainRun kbdKeyEventBufferSize q (queueActions t)).2 s₁ t' s') :
    InterruptEffect q s (t ++ t') s' where
  text := by
    rw [screenText_append, queueActions_append, drainRun_append, List.flatMap_append, h.text,
      h'.text]
  holds := by
    rw [queueActions_append, drainRun_append]
    exact h'.holds
  decoded htimeout := by
    rw [List.mem_append, not_or] at htimeout
    obtain ⟨hput, hsame⟩ := h.decoded htimeout.1
    obtain ⟨hput', hsame'⟩ := h'.decoded htimeout.2
    obtain ⟨hevents, hend⟩ := hsame.decode (keyboardBytes t')
    rw [queueActions_append, elementsPut_append, keyboardBytes_append, ps2KbdDecode_append, hput,
      hput', hevents]
    exact ⟨rfl, hsame'.1.trans hend.1, hsame'.2.trans hend.2⟩

end InterruptEffect

/-- The timer's interrupt drains the queue. -/
theorem timerInterrupt_effect (hfuel : kbdKeyEventBufferSize < fuel)
    (hq : s.ps2.kbd.keyEvents.Holds q)
    (hrun : (timerInterrupt env dev fuel).Runs s t .returned s') : InterruptEffect q s t s' := by
  have hlen : q.length ≤ kbdKeyEventBufferSize := by
    rw [← hq.contents, length_ringContents]
    exact hq.size
  obtain ⟨b, hexpected, hb⟩ := timerInterrupt_runs hq (hlen.trans_lt hfuel)
  obtain rfl := hrun.unique hexpected
  obtain ⟨-, rfl⟩ := hrun.unique_result hexpected
  have hactions : queueActions (q.flatMap (env.keyEventOutput s.backend) ++ [.eoi 0#8])
      = [.drain] := by
    rw [queueActions_append, queueActions, filterMap_keyEventOutput (fun _ => rfl) fun _ => rfl]
    rfl
  have hbytes : keyboardBytes (q.flatMap (env.keyEventOutput s.backend) ++ [.eoi 0#8]) = [] := by
    rw [keyboardBytes_append, keyboardBytes, filterMap_keyEventOutput (fun _ => rfl) fun _ => rfl]
    rfl
  refine ⟨?_, ?_, fun _ => ?_⟩
  · rw [hactions, screenText_append, screenText_keyEventOutput]
    show q.flatMap KeyEvent.text ++ [] = (q ++ []).flatMap KeyEvent.text
    rw [List.append_nil, List.append_nil]
  · rw [hactions]
    exact hb
  · rw [hactions, hbytes]
    exact ⟨rfl, rfl, rfl⟩

/-- The keyboard's interrupt puts in what its byte completes. -/
theorem keyboardInterrupt_effect (hq : s.ps2.kbd.keyEvents.Holds q)
    (hrun : (keyboardInterrupt dev).Runs s t .returned s') : InterruptEffect q s t s' := by
  obtain ⟨u, _, p, hcallback⟩ := (ps2KbdIrqCallback_total : (ps2KbdIrqCallback dev).Total) s.ps2
  obtain rfl := hrun.unique (keyboardInterrupt_runs hcallback)
  obtain ⟨-, rfl⟩ := hrun.unique_result (keyboardInterrupt_runs hcallback)
  obtain ⟨v, u₁, hu₁, rfl, hkbd⟩ := ps2KbdIrqCallback_runs hcallback
  have hactions : ∀ u₁, u₁ = [Ps2Event.received v] ∨ u₁ = [.receiveTimeout] →
      ∀ o : Option KeyEvent, queueActions ((u₁ ++ (o.map Ps2Event.appended).toList).map .ps2
        ++ [.eoi 1#8]) = (o.map DrainAction.put).toList := by
    rintro _ (rfl | rfl) o <;> cases o <;> rfl
  have htext : ∀ u : List Ps2Event, screenText (u.map .ps2 ++ [.eoi 1#8]) = [] := by
    intro u
    refine List.filterMap_eq_nil_iff.mpr fun e he => ?_
    rcases List.mem_append.mp he with he | he
    · obtain ⟨e, -, rfl⟩ := List.mem_map.mp he
      rfl
    · rw [List.mem_singleton.mp he]
      rfl
  have hbuffer : p.kbd.keyEvents.Holds (drainRun kbdKeyEventBufferSize q
      ((ps2KbdReceive s.ps2.kbd v).1.map DrainAction.put).toList).2 := by
    rw [hkbd]
    unfold ps2KbdReceive
    cases ps2KbdSwitchState s.ps2.kbd.state v with
    | none => exact hq.append _
    | some state => exact hq
  have hnone : ∀ o : Option KeyEvent,
      (drainRun kbdKeyEventBufferSize q (o.map DrainAction.put).toList).1 = [] := by
    rintro (_ | e) <;> rfl
  refine ⟨?_, ?_, fun htimeout => ?_⟩
  · rw [hactions u₁ hu₁, htext, hnone]
    rfl
  · rw [hactions u₁ hu₁]
    exact hbuffer
  · -- With no timeout, the byte was received.
    rcases hu₁ with rfl | rfl
    · have hbytes : ∀ o : Option KeyEvent, keyboardBytes
          (([Ps2Event.received v] ++ (o.map Ps2Event.appended).toList).map .ps2 ++ [.eoi 1#8])
            = [v] := by
        rintro (_ | e) <;> rfl
      rw [hactions _ (.inl rfl), hbytes, ps2KbdDecode_cons]
      have hput : ∀ o : Option KeyEvent, elementsPut (o.map DrainAction.put).toList = o.toList := by
        rintro (_ | e) <;> rfl
      exact ⟨(hput _).trans (List.append_nil _).symm, congrArg Ps2Kbd.state hkbd,
        congrArg Ps2Kbd.modifiers hkbd⟩
    · exact absurd (List.mem_append_left _ (List.mem_map_of_mem List.mem_cons_self)) htimeout

/-- The other lines do not matter. -/
theorem otherInterrupt_effect {irq : ℕ} (hirq : irq < 16) (hother : irq ≠ 0)
    (hq : s.ps2.kbd.keyEvents.Holds q)
    (hrun : (otherInterrupt env dev irq).Runs s t .returned s') : InterruptEffect q s t s' := by
  obtain rfl := hrun.unique (otherInterrupt_runs hirq)
  obtain ⟨-, rfl⟩ := hrun.unique_result (otherInterrupt_runs hirq)
  have hne : BitVec.ofNat 8 irq ≠ 0#8 := by
    have hall : ∀ i < 16, i ≠ 0 → BitVec.ofNat 8 i ≠ 0#8 := by decide
    exact hall irq hirq hother
  have heoi : HandlerEvent.queueAction (.eoi (BitVec.ofNat 8 irq)) = none := if_neg hne
  have hactions : queueActions (env.message s.backend .debug (charBytes (otherInterruptMessage irq))
      ++ [.eoi (BitVec.ofNat 8 irq)]) = [] := by
    rw [queueActions_append, queueActions, filterMap_message (fun _ => rfl), List.nil_append,
      queueActions, List.filterMap_cons_none heoi]
    rfl
  have hbytes : keyboardBytes (env.message s.backend .debug
      (charBytes (otherInterruptMessage irq)) ++ [.eoi (BitVec.ofNat 8 irq)]) = [] := by
    rw [keyboardBytes_append, keyboardBytes, filterMap_message (fun _ => rfl)]
    rfl
  have htext : screenText (env.message s.backend .debug
      (charBytes (otherInterruptMessage irq)) ++ [.eoi (BitVec.ofNat 8 irq)]) = [] := by
    rw [screenText_append, screenText, filterMap_message (fun _ => rfl)]
    rfl
  refine ⟨?_, ?_, fun _ => ?_⟩
  · rw [hactions, htext]
    rfl
  · rw [hactions]
    exact hq
  · rw [hactions, hbytes]
    exact ⟨rfl, rfl, rfl⟩

/-- **The step**: every interrupt that the handler returns from. -/
theorem interruptHandler_effect (hfuel : kbdKeyEventBufferSize < fuel)
    (hq : s.ps2.kbd.keyEvents.Holds q)
    (hrun : (interruptHandler env dev fuel stack).Runs s t .returned s') :
    InterruptEffect q s t s' := by
  by_cases hirq : ∃ irq, IsIrq stack irq
  · obtain ⟨irq, hirq⟩ := hirq
    rw [interruptHandler_of_isIrq hirq] at hrun
    split at hrun
    · exact timerInterrupt_effect hfuel hq hrun
    · next hother =>
      split at hrun
      · exact keyboardInterrupt_effect hq hrun
      · exact otherInterrupt_effect hirq.1 hother hq hrun
  · cases interruptHandler_halted (not_exists.mp hirq) hrun

/-- **The run.** -/
theorem InterruptRun.effect (hfuel : kbdKeyEventBufferSize < fuel)
    (hq : s.ps2.kbd.keyEvents.Holds q) (h : InterruptRun env dev fuel s t s') :
    InterruptEffect q s t s' := by
  induction h generalizing q with
  | nil => exact .nil hq
  | @cons s s₁ s' t t' stack d hrun _ ih =>
    have hdevice : InterruptEffect q (s.withDevice d) t s₁ :=
      interruptHandler_effect hfuel hq hrun
    -- The variables of the keyboard driver are those from before the devices changed.
    have hstep : InterruptEffect q s t s₁ := ⟨hdevice.text, hdevice.holds, hdevice.decoded⟩
    exact hstep.append (ih hstep.holds)

/-- The lines of the interrupt controllers are handled in every state whose buffer is in
order. -/
theorem interruptHandler_returns (hfuel : kbdKeyEventBufferSize < fuel)
    (hq : s.ps2.kbd.keyEvents.Holds q) {irq : ℕ} (hirq : IsIrq stack irq) :
    ∃ t s', (interruptHandler env dev fuel stack).Runs s t .returned s' := by
  rw [interruptHandler_of_isIrq hirq]
  split
  · have hlen : q.length ≤ kbdKeyEventBufferSize := by
      rw [← hq.contents, length_ringContents]
      exact hq.size
    obtain ⟨b, hrun, -⟩ := timerInterrupt_runs hq (hlen.trans_lt hfuel)
    exact ⟨_, _, hrun⟩
  · split
    · obtain ⟨u, _, p, hcallback⟩ := (ps2KbdIrqCallback_total : (ps2KbdIrqCallback dev).Total) s.ps2
      exact ⟨_, _, keyboardInterrupt_runs hcallback⟩
    · exact ⟨_, _, otherInterrupt_runs hirq.1⟩

/-! ## What the keyboard is for -/

/-- **The key events on their way to the screen.** After any sequence of interrupts, in
whatever order and whatever the devices do, the text on the screen is that of the key
events which a queue of `KBD_KEY_EVENT_BUFFER_SIZE` elements has given to the timer's
interrupts, and the buffer holds what is left in the queue. These are events that were
there before or that the driver appended, in their order; and they are all of them
exactly if no event was appended while the queue was full. -/
theorem interruptRun_text (hfuel : kbdKeyEventBufferSize < fuel)
    (hq : s.ps2.kbd.keyEvents.Holds q) (h : InterruptRun env dev fuel s t s') :
    let r := drainRun kbdKeyEventBufferSize q (queueActions t)
    screenText t = r.1.flatMap KeyEvent.text ∧ s'.ps2.kbd.keyEvents.Holds r.2 ∧
      List.Sublist (r.1 ++ r.2) (q ++ elementsPut (queueActions t)) ∧
      (r.1 ++ r.2 = q ++ elementsPut (queueActions t) ↔
        overruns kbdKeyEventBufferSize q (queueActions t) = 0) := by
  intro r
  have heffect := h.effect hfuel hq
  exact ⟨heffect.text, heffect.holds, drainRun_sublist q _,
    drainRun_eq_iff (show 0 < 32 by decide) q _⟩

/-- **What is typed is printed.** The driver is ready, no key was touched and the buffer
is empty. Then interrupts come in any order, those of the keyboard find the bytes of
complete sequences, no event comes while 32 of them wait for the timer, and the Shift
keys are counted well. Then the text on the screen, with that of the events that still
wait, is the one typed. -/
theorem interruptRun_typed (hfuel : kbdKeyEventBufferSize < fuel)
    (hstate : s.ps2.kbd.state = .normal) (hmods : s.ps2.kbd.modifiers = .initial)
    (hempty : s.ps2.kbd.keyEvents.Holds []) (h : InterruptRun env dev fuel s t s')
    (htimeout : .ps2 .receiveTimeout ∉ t) {seqs : List KeySequence}
    (hbytes : keyboardBytes t = seqs.flatMap KeySequence.bytes)
    (hkept : overruns kbdKeyEventBufferSize [] (queueActions t) = 0)
    (hcounted : PairCounted .keyLshift .keyRshift (seqs.map KeySequence.keyEvent)) :
    ∃ pending, s'.ps2.kbd.keyEvents.Holds pending ∧
      screenText t ++ pending.flatMap KeyEvent.text
        = typedText [] (seqs.map KeySequence.keyEvent) := by
  have heffect := h.effect hfuel hempty
  obtain ⟨hput, -⟩ := heffect.decoded htimeout
  have hall := (drainRun_eq_iff (show 0 < kbdKeyEventBufferSize by decide) [] _).mpr hkept
  rw [hbytes] at hput
  let decoded := (ps2KbdDecode s.ps2.kbd (seqs.flatMap KeySequence.bytes)).1
  let kept := (seqs.map KeySequence.keyEvent).filter KeySequence.isDecoded
  have hstamped : Stamped [] decoded :=
    (ps2KbdDecode_stamped (show s.ps2.kbd.modifiers = modifiersAfter [] from hmods) _).1
  -- What the driver decodes are the events of the sequences, but for those it drops.
  have hlabels : decoded.map KeyEvent.label = kept.map KeyEvent.label :=
    (KeySequence.decode_flatMap hstate seqs).1.trans (KeySequence.filter_map_keyEvent seqs).symm
  have hcounted' : PairCounted .keyLshift .keyRshift decoded :=
    pairCounted_congr hlabels.symm (KeySequence.keepsText_isDecoded.pairCounted_filter hcounted)
  refine ⟨_, heffect.holds, ?_⟩
  calc screenText t ++ (drainRun kbdKeyEventBufferSize [] (queueActions t)).2.flatMap KeyEvent.text
      = ([] ++ elementsPut (queueActions t)).flatMap KeyEvent.text := by
        rw [heffect.text, ← List.flatMap_append, hall]
    _ = decoded.flatMap KeyEvent.text := by rw [List.nil_append, hput]
    _ = typedText [] decoded := hstamped.flatMap_text hcounted'
    _ = typedText [] kept := typedText_congr rfl hlabels
    _ = typedText [] (seqs.map KeySequence.keyEvent) :=
        KeySequence.keepsText_isDecoded.typedText_filter [] _

end Pipeline

/-! ## A key is typed -/

/-- A build that logs no information, with nothing on the stack. -/
def quietEnv : HandlerEnv where
  loggingMinLevel := .warning
  file := ⟨stringLiteral "", [], holds_stringLiteral (by decide) (by decide)⟩
  loggingFile := ⟨stringLiteral "", [], holds_stringLiteral (by decide) (by decide)⟩
  logArray := stringLiteral ""
  printArray := stringLiteral ""
  keyEvent := .zero

/-- The frame of an interrupt of a line. -/
def irqFrame (irq : ℕ) : InterruptStackFrame where
  r15 := 0#64
  r14 := 0#64
  r13 := 0#64
  r12 := 0#64
  r11 := 0#64
  r10 := 0#64
  r9 := 0#64
  r8 := 0#64
  rbp := 0#64
  rdi := 0#64
  rsi := 0#64
  rdx := 0#64
  rcx := 0#64
  rbx := 0#64
  rax := 0#64
  interruptVector := BitVec.ofNat 64 (32 + irq)
  errorCode := BitVec.ofNat 64 (32 + irq)
  rip := 0#64
  cs := 0x8#64
  rflags := 0x202#64
  rsp := 0#64
  ss := 0x10#64

/-- The kernel with the keyboard ready and bytes to come. -/
def readyKernel (bytes : List (BitVec 8)) : KernelState (List (BitVec 8)) :=
  ⟨readyState bytes, ⟨.debug⟩, 0#64⟩

/-- The event of the key A. -/
def keyEventA : KeyEvent := ⟨.keyA, .pressed, 0#16⟩

/-- What the two interrupts of a key do. -/
def keyTrace : List HandlerEvent :=
  [.ps2 (.received 0x1e#8), .ps2 (.appended keyEventA), .eoi 1#8,
    .printed (.terminalPutChar (charByte 'a')), .eoi 0#8]

/-- The key A is pressed, and a tick of the timer follows. -/
theorem interruptRun_keyA :
    ∃ s', InterruptRun quietEnv byteQueue 33 (readyKernel [0x1e#8]) keyTrace s' := by
  have hcallback : ∃ p, (ps2KbdIrqCallback byteQueue).Runs (readyState [0x1e#8])
      [.received 0x1e#8, .appended keyEventA] () p ∧
        p.kbd.keyEvents = kbdAppendKeyEventToBuffer keyEventA .initial := ⟨_, rfl, rfl⟩
  obtain ⟨p, hcallback, hbuffer⟩ := hcallback
  let s₁ : KernelState (List (BitVec 8)) :=
    KernelState.acknowledged byteQueue 1#8 ⟨p, ⟨.debug⟩, 0#64⟩
  have hkeyboard : (interruptHandler quietEnv byteQueue 33 (irqFrame 1)).Runs
      ((readyKernel [0x1e#8]).withDevice [0x1e#8])
        [.ps2 (.received 0x1e#8), .ps2 (.appended keyEventA), .eoi 1#8] .returned s₁ := by
    rw [interruptHandler_of_isIrq (show IsIrq (irqFrame 1) 1 from ⟨by decide, rfl⟩)]
    exact keyboardInterrupt_runs (s := readyKernel [0x1e#8]) hcallback
  have hholds : s₁.ps2.kbd.keyEvents.Holds [keyEventA] := by
    show p.kbd.keyEvents.Holds _
    rw [hbuffer]
    exact KeyEventBuffer.holds_initial.append keyEventA
  have htimer : ∃ s₂, (interruptHandler quietEnv byteQueue 33 (irqFrame 0)).Runs
      (s₁.withDevice s₁.ps2.device) [.printed (.terminalPutChar (charByte 'a')), .eoi 0#8]
        .returned s₂ := by
    obtain ⟨b, hrun, -⟩ := timerInterrupt_runs hholds (show 1 < 33 by decide)
    rw [interruptHandler_of_isIrq (show IsIrq (irqFrame 0) 0 from ⟨by decide, rfl⟩)]
    exact ⟨_, hrun⟩
  obtain ⟨s₂, htimer⟩ := htimer
  exact ⟨s₂, .cons hkeyboard (.cons htimer .nil)⟩

/-- Its text is on the screen, and the buffer is empty. -/
theorem interruptRun_text_keyA :
    ∃ s', InterruptRun quietEnv byteQueue 33 (readyKernel [0x1e#8]) keyTrace s' ∧
      screenText keyTrace = charBytes "a" ∧ s'.ps2.kbd.keyEvents.Holds [] := by
  obtain ⟨s', hrun⟩ := interruptRun_keyA
  have htext := interruptRun_text (show 32 < 33 by decide) KeyEventBuffer.holds_initial hrun
  exact ⟨s', hrun, rfl, htext.2.1⟩

/-- It is the text typed. -/
theorem interruptRun_typed_keyA :
    ∃ s' pending, InterruptRun quietEnv byteQueue 33 (readyKernel [0x1e#8]) keyTrace s' ∧
      s'.ps2.kbd.keyEvents.Holds pending ∧
      screenText keyTrace ++ pending.flatMap KeyEvent.text
        = typedText [] [KeySequence.keyEvent (.makeCode 0x1e#8 (by decide))] := by
  obtain ⟨s', hrun⟩ := interruptRun_keyA
  let seqs : List KeySequence := [.makeCode 0x1e#8 (by decide)]
  have hbytes : keyboardBytes keyTrace = seqs.flatMap KeySequence.bytes := rfl
  have hcounted : PairCounted .keyLshift .keyRshift (seqs.map KeySequence.keyEvent) := by
    have hnil : PairCounted .keyLshift .keyRshift [] := fun pre e hpre => by
      cases List.append_ne_nil_of_right_ne_nil pre (List.cons_ne_nil e []) (List.prefix_nil.mp hpre)
    exact (pairCounted_concat (e := KeySequence.keyEvent (.makeCode 0x1e#8 (by decide)))).mpr
      ⟨hnil, fun hkey => absurd hkey (by decide)⟩
  obtain ⟨pending, hpending, htyped⟩ := interruptRun_typed (show 32 < 33 by decide) rfl rfl
    KeyEventBuffer.holds_initial hrun (by decide) hbytes rfl hcounted
  exact ⟨s', pending, hrun, hpending, htyped⟩
