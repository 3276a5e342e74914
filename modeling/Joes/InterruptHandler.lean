import Joes.KeyboardLayout
import Joes.LoggingFormat
import Joes.PrintfCount
import Joes.Ps2Keyboard

/-!
# The interrupt handler

Every interrupt ends up in `interrupt_handler`, with the frame that the stub of its
vector has made. An exception is reported and halts the machine. The timer's
interrupt prints the key events that were not read yet, the keyboard's receives a
byte, and the other lines of the interrupt controllers are only acknowledged.

The handler is a program on the variables of the drivers it calls. A halt is a result
here, so that what was logged before it can be told. `interruptHandler_of_isIrq` says
what is done on a line of the interrupt controllers, and on the others the handler
halts (`interruptHandler_halted`).
-/

/-- `struct interrupt_stack_frame`. -/
structure InterruptStackFrame where
  r15 : BitVec 64
  r14 : BitVec 64
  r13 : BitVec 64
  r12 : BitVec 64
  r11 : BitVec 64
  r10 : BitVec 64
  r9 : BitVec 64
  r8 : BitVec 64
  rbp : BitVec 64
  rdi : BitVec 64
  rsi : BitVec 64
  rdx : BitVec 64
  rcx : BitVec 64
  rbx : BitVec 64
  rax : BitVec 64
  interruptVector : BitVec 64
  errorCode : BitVec 64
  rip : BitVec 64
  cs : BitVec 64
  rflags : BitVec 64
  rsp : BitVec 64
  ss : BitVec 64
  deriving DecidableEq, Repr

/-- The vectors of the exceptions that don't have an error code. -/
def intWithoutErrorCode : List (BitVec 64) :=
  [0#64, 1#64, 2#64, 3#64, 4#64, 5#64, 6#64, 7#64, 9#64, 15#64, 16#64, 18#64, 19#64, 20#64, 22#64,
   23#64, 24#64, 25#64, 26#64, 27#64, 28#64, 29#64, 30#64, 31#64]

/-- The vectors of those that have one, without the page fault. -/
def intWithErrorCode : List (BitVec 64) := [8#64, 10#64, 11#64, 12#64, 13#64, 17#64, 21#64]

/-- `INT_PAGE_FAULT`. -/
def intPageFault : BitVec 64 := 14#64

/-- `INT_EXT_INT0`. -/
def intExtInt0 : BitVec 64 := 32#64

/-- `INT_EXT_INT1`. -/
def intExtInt1 : BitVec 64 := 33#64

/-- `INT_EXT_INT15`. -/
def intExtInt15 : BitVec 64 := 47#64

/-- `INT_DESCRIPTION_UNKNOWN_EXCEPTION`. -/
def intDescriptionUnknownException : ℕ := 24

/-- The elements of `interrupt_descriptions` that are initialised. There is no comma
after the description of the virtualization exception, so it goes on with the next
one, and the last of the 25 elements is left a null pointer. -/
def interruptDescriptions : List String :=
  ["Divide Error.\n", "Debug Exception.\n", "NMI Interrupt.\n", "Breakpoint.\n", "Overflow.\n",
   "BOUND Range Exceeded.\n", "Invalid Opcode.\n",
   "Device Not Available (No Math Coprocessor).\n", "Double Fault: err=%d\n",
   "Coprocessor Segment Overrun.\n", "Invalid TSS: err=%d\n", "Segment Not Present: err=%d\n",
   "Stack-Segment Fault: err=%d\n", "General Protection Fault: err=%d\n",
   "Page Fault: err=%d, CR2=%x\n", "Intel reserved. This shouldn't come up.\n",
   "x87 FPU Floating-Point Error (Math Fault).\n", "Alignment Check: err=%d\n",
   "Machine Check.\n", "SIMD Floating-Point Exception.\n",
   "Virtualization Exception.\nControl Protection Exception: err=%d\n",
   "Reserved for future use. This shouldn't come up.\n", "External Interrupt: %d\n",
   "An unknown Exception / Interrupt occured: int=%d, errno=%d\n"]

/-! ## The programs of the handler -/

/-- The variables of the drivers and of the logging module, with the register that
holds the address of a page fault. -/
structure KernelState (δ : Type) where
  ps2 : Ps2State δ
  backend : LoggingBackend
  cr2 : BitVec 64

/-- What happens in an interrupt. -/
inductive HandlerEvent where
  /-- The keyboard driver does something. -/
  | ps2 (e : Ps2Event)
  /-- `printf` does something. -/
  | printed (e : PrintEvent)
  /-- A byte is passed to the logging backend. -/
  | logged (c : BitVec 8)
  /-- `pic_send_eoi` is called. -/
  | eoi (irq : BitVec 8)
  deriving DecidableEq

/-- How the handler ends. -/
inductive HandlerResult where
  | returned
  /-- By `hcf`. -/
  | halted
  deriving DecidableEq, Repr

/-- **What is not in the handler's code**: the level below which messages are compiled
out, the names of the source files, and what is on the stack where its array, that of
`printf` and its key event are. -/
structure HandlerEnv where
  loggingMinLevel : LoggingLevel
  file : CString
  loggingFile : CString
  logArray : CharBuffer
  printArray : CharBuffer
  keyEvent : KeyEvent

/-- The programs of the handler. -/
abbrev HandlerProgram (δ α : Type) := Traced (KernelState δ) HandlerEvent α

section Handler

variable {δ : Type} (env : HandlerEnv) (dev : PortDevice δ)

/-- A program of the keyboard driver. -/
def ps2Program {α : Type} (m : Ps2Program δ α) : HandlerProgram δ α :=
  m.zoom KernelState.ps2 (fun ps2 s => { s with ps2 := ps2 }) .ps2

/-- A call of `printf`. -/
def printfCall (str : CharBuffer) (list : List VaArg) : HandlerProgram δ (BitVec 64) :=
  (Printf.printf env.printArray str list).zoom (fun _ => ()) (fun _ s => s) .printed

/-- The macros `LOG_DEBUG`, `LOG_INFO`, `LOG_WARNING` and `LOG_ERROR`. A message that is a
null pointer has no meaning. -/
def logMacro (level : LoggingLevel) (msg : Option CharBuffer) (list : List VaArg) :
    HandlerProgram δ Unit :=
  Traced.when (env.loggingMinLevel.value ≤ level.value) do
    let msg ← Traced.ofOption msg
    (loggingLogMsg env.loggingFile.chars env.logArray level env.file.chars msg list).zoom
      KernelState.backend (fun backend s => { s with backend := backend }) .logged

/-- `pic_send_eoi`. -/
def sendEoi (irq : BitVec 8) : HandlerProgram δ Unit := do
  Traced.emit (.eoi irq)
  Traced.modify fun s =>
    { s with ps2 := { s.ps2 with device := picSendEoi dev irq s.ps2.device } }

/-- An element of `interrupt_descriptions`. -/
def interruptDescription (i : ℕ) : Option CharBuffer := interruptDescriptions[i]?.map stringLiteral

/-- A `uint64_t` as a variadic argument. It is passed in a slot of 64 bits, of which an
`int` is the low half. -/
def vaUint64 (v : BitVec 64) : VaArg := .int (v.setWidth 32)

/-- The cases of the exceptions: a message, and a halt. -/
def exceptionCase (i : ℕ) (list : List VaArg) : HandlerProgram δ HandlerResult := do
  logMacro env .error (interruptDescription i) list
  pure .halted

/-- The call of `kbd_get_key_event_from_buffer`. -/
def getKeyEvent (dest : KeyEvent) : HandlerProgram δ (KbdErrorCode × KeyEvent) :=
  Traced.modifyGet fun s =>
    let r := kbdGetKeyEventFromBuffer dest s.ps2.kbd.keyEvents
    ((r.1, r.2.1), { s with ps2 := { s.ps2 with kbd := { s.ps2.kbd with keyEvents := r.2.2 } } })

/-- The body of the loop over the key events. -/
def printKeyEvent (keyEvent : KeyEvent) : HandlerProgram δ Unit := do
  let _ ← printfCall env (stringLiteral "%s")
    [.string (stringLiteral (kbdKeyEventToAscii keyEvent))]
  logMacro env .info (some (stringLiteral "%s"))
    [.string (stringLiteral (kbdKeyEventToAscii keyEvent))]

/-- The loop over the key events, with the iterations that are left. -/
def printKeyEvents : ℕ → KeyEvent → HandlerProgram δ Unit
  | 0, _ => Traced.diverge
  | fuel + 1, dest => do
    let (result, keyEvent) ← getKeyEvent dest
    if result ≠ .keyEventBufferEmpty then
      printKeyEvent env keyEvent
      printKeyEvents fuel keyEvent
    else pure ()

/-- The case of `INT_EXT_INT0`. -/
def timerInterrupt (fuel : ℕ) : HandlerProgram δ HandlerResult := do
  printKeyEvents env fuel env.keyEvent
  sendEoi dev 0#8
  pure .returned

/-- The case of `INT_EXT_INT1`. -/
def keyboardInterrupt : HandlerProgram δ HandlerResult := do
  ps2Program (ps2KbdIrqCallback dev)
  sendEoi dev 1#8
  pure .returned

/-- The messages of `INT_EXT_INT2` to `INT_EXT_INT15`. -/
def otherInterruptMessages : List String :=
  ["EXT2\n", "EXT3\n", "EXT4\n", "EXT5\n", "EXT6\n", "EXT7\n", "EXT8\n", "EXT9\n", "EXT10\n",
   "EXT11\n", "EXT12\n", "EXT13\n", "EXT14\n", "EXT15\n"]

/-- The message of one of these lines. -/
def otherInterruptMessage (irq : ℕ) : String := otherInterruptMessages.getD (irq - 2) ""

/-- The cases of `INT_EXT_INT2` to `INT_EXT_INT15`, which only differ in the number. -/
def otherInterrupt (irq : ℕ) : HandlerProgram δ HandlerResult := do
  logMacro env .debug (some (stringLiteral (otherInterruptMessage irq))) []
  sendEoi dev (BitVec.ofNat 8 irq)
  pure .returned

/-- `interrupt_handler`. -/
def interruptHandler (fuel : ℕ) (stack : InterruptStackFrame) : HandlerProgram δ HandlerResult :=
  let v := stack.interruptVector
  if v ∈ intWithoutErrorCode then exceptionCase env v.toNat []
  else if v ∈ intWithErrorCode then exceptionCase env v.toNat [vaUint64 stack.errorCode]
  else if v = intPageFault then do
    let cr2 ← Traced.gets KernelState.cr2
    exceptionCase env v.toNat [vaUint64 stack.errorCode, vaUint64 cr2]
  else if v = intExtInt0 then timerInterrupt env dev fuel
  else if v = intExtInt1 then keyboardInterrupt dev
  else if v ≤ intExtInt15 then otherInterrupt env dev (v - intExtInt0).toNat
  else
    exceptionCase env intDescriptionUnknownException
      [vaUint64 stack.interruptVector, vaUint64 stack.errorCode]

end Handler

/-! ## Messages and texts -/

section Specification

variable {δ : Type} {env : HandlerEnv} {dev : PortDevice δ} {s s' : KernelState δ}
  {t : List HandlerEvent} {q : List KeyEvent}

/-- What is logged for a message that has been rendered. -/
def HandlerEnv.message (env : HandlerEnv) (b : LoggingBackend) (level : LoggingLevel)
    (text : List (BitVec 8)) : List HandlerEvent :=
  if env.loggingMinLevel.value ≤ level.value then (b.line level env.file text).map .logged else []

/-- **A logging macro** logs its message, and changes nothing. -/
theorem logMacro_runs (level : LoggingLevel) {msg : CharBuffer} {items : List FormatItem}
    (list : List VaArg) (hmsg : msg.Holds (items.flatMap FormatItem.bytes)) :
    (logMacro env level (some msg) (items.flatMap FormatItem.args ++ list)).Runs s
      (env.message s.backend level (items.flatMap FormatItem.written)) () s := by
  unfold logMacro Traced.when HandlerEnv.message
  split
  · refine Traced.Runs.some_seq (Traced.runs_zoom.mpr ⟨_, s.backend, ?_, rfl, rfl⟩)
    exact loggingLogMsg_runs env.loggingFile.chars env.logArray env.file s.backend level list hmsg
  · exact Traced.runs_pure.mpr ⟨rfl, rfl, rfl⟩

/-- The text of a key event, where `printf` and the logger find it. -/
def KeyEvent.cString (e : KeyEvent) : CString where
  chars := stringLiteral (kbdKeyEventToAscii e)
  bytes := e.text
  holds := by
    obtain ⟨hlen, hzero⟩ := kbdKeyEventToAscii_wellFormed e
    exact holds_stringLiteral (hlen.trans_lt (by decide)) hzero

/-- The format string `%s`. -/
theorem holds_formatString (c : CString) :
    (stringLiteral "%s").Holds ([FormatItem.conversion [] (.string c)].flatMap FormatItem.bytes) :=
  holds_stringLiteral (by decide) (by decide)

/-- What is done for a key event that was taken from the buffer. -/
def HandlerEnv.keyEventOutput (env : HandlerEnv) (b : LoggingBackend) (e : KeyEvent) :
    List HandlerEvent :=
  e.text.map (fun c => .printed (.terminalPutChar c)) ++ env.message b .info e.text

/-- A string is printed as it is. -/
theorem printfCall_string_runs (c : CString) :
    ∃ n, (printfCall env (stringLiteral "%s") [.string c.chars]).Runs s
      (c.bytes.map fun c => .printed (.terminalPutChar c)) n s := by
  have hitem : (stringLiteral "%s").Holds
      ([PrintItem.item (.conversion [] (.string c))].flatMap PrintItem.bytes) :=
    holds_formatString c
  refine ⟨_, Traced.runs_zoom.mpr
    ⟨_, (), printf_runs_items env.printArray [] hitem, rfl, ?_⟩⟩
  rw [printEvents, printEvents, List.append_nil]
  exact List.map_map

/-- And logged as it is. -/
theorem logMacro_string_runs (level : LoggingLevel) (c : CString) :
    (logMacro env level (some (stringLiteral "%s")) [.string c.chars]).Runs s
      (env.message s.backend level c.bytes) () s := by
  have hrun : (logMacro env level (some (stringLiteral "%s"))
      ([FormatItem.conversion [] (.string c)].flatMap FormatItem.args ++ [])).Runs s
        (env.message s.backend level
          ([FormatItem.conversion [] (.string c)].flatMap FormatItem.written)) () s :=
    logMacro_runs level [] (holds_formatString c)
  rw [List.flatMap_singleton, List.flatMap_singleton, List.append_nil] at hrun
  exact hrun

theorem printKeyEvent_runs (e : KeyEvent) :
    (printKeyEvent env e).Runs s (env.keyEventOutput s.backend e) () s := by
  obtain ⟨n, hprint⟩ : ∃ n, (printfCall env (stringLiteral "%s")
      [.string (stringLiteral (kbdKeyEventToAscii e))]).Runs s
        (e.text.map fun c => .printed (.terminalPutChar c)) n s :=
    printfCall_string_runs e.cString
  have hlog : (logMacro env .info (some (stringLiteral "%s"))
      [.string (stringLiteral (kbdKeyEventToAscii e))]).Runs s
        (env.message s.backend .info e.text) () s :=
    logMacro_string_runs .info e.cString
  unfold printKeyEvent HandlerEnv.keyEventOutput
  exact hprint.seq hlog

/-- The drivers' variables with another buffer of key events. -/
def KernelState.withKeyEvents (s : KernelState δ) (keyEvents : KeyEventBuffer) : KernelState δ :=
  { s with ps2 := { s.ps2 with kbd := { s.ps2.kbd with keyEvents := keyEvents } } }

/-- **The loop** takes all key events there are, in order, and leaves an empty buffer. -/
theorem printKeyEvents_runs {fuel : ℕ} (hq : s.ps2.kbd.keyEvents.Holds q) (hfuel : q.length < fuel)
    (dest : KeyEvent) :
    ∃ b, (printKeyEvents env fuel dest).Runs s (q.flatMap (env.keyEventOutput s.backend)) ()
        (s.withKeyEvents b) ∧ b.Holds [] := by
  induction q generalizing s fuel dest with
  | nil =>
    obtain ⟨fuel, rfl⟩ := Nat.exists_eq_add_one_of_ne_zero (Nat.ne_of_gt hfuel)
    refine ⟨s.ps2.kbd.keyEvents, ?_, hq⟩
    have hget : (getKeyEvent dest : HandlerProgram δ _).Runs s [] (.keyEventBufferEmpty, dest) s :=
      Traced.runs_modifyGet.mpr ⟨by rw [hq.get_empty], by rw [hq.get_empty], rfl⟩
    exact hget.seq (Traced.runs_pure.mpr ⟨rfl, rfl, rfl⟩)
  | cons e q ih =>
    obtain ⟨fuel, rfl⟩ := Nat.exists_eq_add_one_of_ne_zero (Nat.ne_of_gt (Nat.zero_lt_of_lt hfuel))
    obtain ⟨b, hget, hb⟩ := hq.get dest
    have htaken : (getKeyEvent dest : HandlerProgram δ _).Runs s [] (.keyEventBufferOk, e)
        (s.withKeyEvents b) :=
      Traced.runs_modifyGet.mpr ⟨by rw [hget], by rw [hget]; rfl, rfl⟩
    obtain ⟨b', hrun, hempty⟩ := ih (s := s.withKeyEvents b) hb (Nat.lt_of_succ_lt_succ hfuel) e
    refine ⟨b', htaken.seq ?_, hempty⟩
    dsimp only
    rw [if_pos (by decide)]
    exact (printKeyEvent_runs e).seq hrun

/-! ## The cases -/

/-- The state after `pic_send_eoi`. -/
def KernelState.acknowledged (dev : PortDevice δ) (irq : BitVec 8) (s : KernelState δ) :
    KernelState δ :=
  { s with ps2 := { s.ps2 with device := picSendEoi dev irq s.ps2.device } }

theorem sendEoi_runs (irq : BitVec 8) :
    (sendEoi dev irq).Runs s [.eoi irq] () (s.acknowledged dev irq) :=
  Traced.Runs.emit_seq (Traced.runs_modify.mpr ⟨rfl, rfl⟩)

/-- The end of a case that returns. -/
theorem sendEoi_returned_runs (irq : BitVec 8) :
    (do sendEoi dev irq; pure HandlerResult.returned).Runs s [.eoi irq] .returned
      (s.acknowledged dev irq) := (sendEoi_runs irq).seq_pure

/-- **An exception** halts the machine, if its message has a meaning. -/
theorem exceptionCase_halted {i : ℕ} {list : List VaArg} {r : HandlerResult}
    (h : (exceptionCase env i list).Runs s t r s') : r = .halted := by
  obtain ⟨_, s₁, t₁, t₂, _, hpure, rfl⟩ := h.bind
  exact (Traced.runs_pure.mp hpure).1.symm

/-- **The timer's interrupt** prints the key events that were not read yet. -/
theorem timerInterrupt_runs {fuel : ℕ} (hq : s.ps2.kbd.keyEvents.Holds q)
    (hfuel : q.length < fuel) :
    ∃ b, (timerInterrupt env dev fuel).Runs s
        (q.flatMap (env.keyEventOutput s.backend) ++ [.eoi 0#8]) .returned
        ((s.withKeyEvents b).acknowledged dev 0#8) ∧ b.Holds [] := by
  obtain ⟨b, hloop, hb⟩ := printKeyEvents_runs hq hfuel env.keyEvent
  exact ⟨b, hloop.seq (sendEoi_returned_runs 0#8), hb⟩

/-- **The keyboard's interrupt** is the driver's. -/
theorem keyboardInterrupt_runs {t : List Ps2Event} {p : Ps2State δ}
    (hrun : (ps2KbdIrqCallback dev).Runs s.ps2 t () p) :
    (keyboardInterrupt dev).Runs s (t.map .ps2 ++ [.eoi 1#8]) .returned
      (({ s with ps2 := p } : KernelState δ).acknowledged dev 1#8) :=
  Traced.Runs.seq (Traced.runs_zoom.mpr ⟨t, p, hrun, rfl, rfl⟩) (sendEoi_returned_runs 1#8)

/-- The messages of the other lines are texts with no conversion. -/
theorem otherInterruptMessage_wellFormed : ∀ irq < 16,
    (otherInterruptMessage irq).toList.length < 2 ^ 64 ∧
      0#8 ∉ (otherInterruptMessage irq).toList.map charByte ∧
      charByte '%' ∉ charBytes (otherInterruptMessage irq) := by
  decide +kernel

/-- **The other lines** are only acknowledged. -/
theorem otherInterrupt_runs {irq : ℕ} (hirq : irq < 16) :
    (otherInterrupt env dev irq).Runs s
      (env.message s.backend .debug (charBytes (otherInterruptMessage irq))
        ++ [.eoi (BitVec.ofNat 8 irq)]) .returned (s.acknowledged dev (BitVec.ofNat 8 irq)) := by
  obtain ⟨hlen, hzero, hpercent⟩ := otherInterruptMessage_wellFormed irq hirq
  have hliteral : ∀ c ∈ charBytes (otherInterruptMessage irq), c ≠ charByte '%' :=
    fun c hc heq => hpercent (heq ▸ hc)
  have hmsg : (stringLiteral (otherInterruptMessage irq)).Holds
      ((literalItems _ hliteral).flatMap FormatItem.bytes) := by
    rw [flatMap_bytes_literalItems]
    exact holds_stringLiteral hlen hzero
  have hlog : (logMacro env .debug (some (stringLiteral (otherInterruptMessage irq)))
      ((literalItems _ hliteral).flatMap FormatItem.args ++ [])).Runs s
        (env.message s.backend .debug ((literalItems _ hliteral).flatMap FormatItem.written)) ()
        s := logMacro_runs .debug [] hmsg
  rw [flatMap_args_literalItems, flatMap_written_literalItems] at hlog
  exact hlog.seq (sendEoi_returned_runs _)

/-! ## The switch -/

/-- The line of the interrupt controllers that a vector is of. -/
def IsIrq (stack : InterruptStackFrame) (irq : ℕ) : Prop :=
  irq < 16 ∧ stack.interruptVector = BitVec.ofNat 64 (32 + irq)

/-- A vector below the lines is that of an exception, of one of the three kinds. -/
theorem isException_of_lt {v : BitVec 64} (h : v.toNat < 32) :
    v ∈ intWithoutErrorCode ∨ v ∈ intWithErrorCode ∨ v = intPageFault := by
  have hall : ∀ n < 32, BitVec.ofNat 64 n ∈ intWithoutErrorCode ∨
      BitVec.ofNat 64 n ∈ intWithErrorCode ∨ BitVec.ofNat 64 n = intPageFault := by decide
  have hv := hall v.toNat h
  rwa [BitVec.ofNat_toNat, BitVec.setWidth_eq] at hv

/-- And no other vector is. -/
theorem lt_of_isException {v : BitVec 64}
    (h : v ∈ intWithoutErrorCode ∨ v ∈ intWithErrorCode ∨ v = intPageFault) : v.toNat < 32 := by
  have hwithout : ∀ n ∈ intWithoutErrorCode.map BitVec.toNat, n < 32 := by decide
  have hwith : ∀ n ∈ intWithErrorCode.map BitVec.toNat, n < 32 := by decide
  rcases h with h | h | rfl
  · exact hwithout _ (List.mem_map_of_mem h)
  · exact hwith _ (List.mem_map_of_mem h)
  · decide

variable {fuel : ℕ} {stack : InterruptStackFrame} {irq : ℕ}

/-- **The handler on a line** of the interrupt controllers. -/
theorem interruptHandler_of_isIrq (h : IsIrq stack irq) :
    interruptHandler env dev fuel stack =
      if irq = 0 then timerInterrupt env dev fuel
      else if irq = 1 then keyboardInterrupt dev
      else otherInterrupt env dev irq := by
  obtain ⟨hlt, hv⟩ := h
  have htoNat : stack.interruptVector.toNat = 32 + irq := by
    rw [hv, BitVec.toNat_ofNat]
    exact Nat.mod_eq_of_lt (by omega)
  have hno : ¬ (stack.interruptVector ∈ intWithoutErrorCode ∨
      stack.interruptVector ∈ intWithErrorCode ∨ stack.interruptVector = intPageFault) :=
    fun hex => absurd (lt_of_isException hex) (by omega)
  have heq : ∀ n, n < 2 ^ 64 → (stack.interruptVector = BitVec.ofNat 64 n ↔ 32 + irq = n) := by
    intro n hn
    rw [← BitVec.toNat_inj, htoNat, BitVec.toNat_ofNat, Nat.mod_eq_of_lt hn]
  rw [not_or, not_or] at hno
  unfold interruptHandler
  dsimp only
  rw [if_neg hno.1, if_neg hno.2.1, if_neg hno.2.2]
  refine if_congr ((heq 32 (by decide)).trans (by omega)) rfl
    (if_congr ((heq 33 (by decide)).trans (by omega)) rfl ?_)
  have hle : stack.interruptVector ≤ intExtInt15 := by
    rw [BitVec.le_def, htoNat]
    show 32 + irq ≤ 47
    omega
  have hirq : (stack.interruptVector - intExtInt0).toNat = irq := by
    rw [BitVec.toNat_sub_of_le (by rw [BitVec.le_def, htoNat]; exact Nat.le_add_right _ _), htoNat]
    exact Nat.add_sub_cancel_left 32 irq
  rw [if_pos hle, hirq]

/-- **The handler on any other vector.** -/
theorem interruptHandler_of_not_isIrq (h : ∀ irq, ¬ IsIrq stack irq) :
    interruptHandler env dev fuel stack =
      if stack.interruptVector ∈ intWithoutErrorCode then
        exceptionCase env stack.interruptVector.toNat []
      else if stack.interruptVector ∈ intWithErrorCode then
        exceptionCase env stack.interruptVector.toNat [vaUint64 stack.errorCode]
      else if stack.interruptVector = intPageFault then do
        let cr2 ← Traced.gets KernelState.cr2
        exceptionCase env stack.interruptVector.toNat [vaUint64 stack.errorCode, vaUint64 cr2]
      else
        exceptionCase env intDescriptionUnknownException
          [vaUint64 stack.interruptVector, vaUint64 stack.errorCode] := by
  have hrange : stack.interruptVector.toNat < 32 ∨ 47 < stack.interruptVector.toNat := by
    by_contra hin
    refine h (stack.interruptVector.toNat - 32) ⟨by omega, ?_⟩
    rw [show 32 + (stack.interruptVector.toNat - 32) = stack.interruptVector.toNat by omega,
      BitVec.ofNat_toNat, BitVec.setWidth_eq]
  have hne : 47 < stack.interruptVector.toNat → ∀ w : BitVec 64, w.toNat ≤ 47 →
      stack.interruptVector ≠ w := by
    rintro hlarge w hw rfl
    omega
  unfold interruptHandler
  dsimp only
  by_cases hwithout : stack.interruptVector ∈ intWithoutErrorCode
  · rw [if_pos hwithout, if_pos hwithout]
  rw [if_neg hwithout, if_neg hwithout]
  by_cases hwith : stack.interruptVector ∈ intWithErrorCode
  · rw [if_pos hwith, if_pos hwith]
  rw [if_neg hwith, if_neg hwith]
  by_cases hpageFault : stack.interruptVector = intPageFault
  · rw [if_pos hpageFault, if_pos hpageFault]
  rw [if_neg hpageFault, if_neg hpageFault]
  have hlarge : 47 < stack.interruptVector.toNat := by
    refine hrange.resolve_left fun hlt => ?_
    rcases isException_of_lt hlt with hex | hex | hex
    exacts [hwithout hex, hwith hex, hpageFault hex]
  rw [if_neg (hne hlarge _ (by decide)), if_neg (hne hlarge _ (by decide)),
    if_neg (by rw [BitVec.le_def]; exact Nat.not_le.mpr hlarge)]

/-- There it halts, if anything. -/
theorem interruptHandler_halted (h : ∀ irq, ¬ IsIrq stack irq) {r : HandlerResult}
    (hrun : (interruptHandler env dev fuel stack).Runs s t r s') : r = .halted := by
  rw [interruptHandler_of_not_isIrq h] at hrun
  split_ifs at hrun
  · exact exceptionCase_halted hrun
  · exact exceptionCase_halted hrun
  · obtain ⟨cr2, s₁, t₁, t₂, -, hcase, -⟩ := hrun.bind
    exact exceptionCase_halted hcase
  · exact exceptionCase_halted hrun

end Specification
