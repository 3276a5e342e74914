import Joes.FormatSteps
import Joes.KeyboardPipeline
import Joes.LibcNumerals

/-!
# What is reported of an exception

The handler takes the message of an exception from a table of format strings, by its
vector, and passes an error code or two numbers with some of them. A format string
whose conversions are all of an `int` is rendered exactly if there are as many
arguments as conversions (`exists_steps_ints_iff`). For eleven exceptions there are
fewer, or there is no message, and so there is none for a vector that is not handled
(`interruptHandler_defined_iff`).

A page fault is reported with its error code and its address, as an `int` and an
`unsigned int`, which is right if they fit (`interruptHandler_pageFault_iff`).
-/

/-! ## As many arguments as conversions -/

/-- **A format string whose conversions are all of an `int`**, read from a mode on. -/
def OnlyInts : FmtState → List (BitVec 8) → Prop
  | _, [] => True
  | state, c :: cs =>
    (state = .format → c ∈ intSpecifiers ∨ c ∈ sharedFlags ∨ c = charByte '%') ∧
      OnlyInts (state.next c) cs

instance decidableOnlyInts :
    (state : FmtState) → (cs : List (BitVec 8)) → Decidable (OnlyInts state cs)
  | _, [] => isTrue trivial
  | state, c :: cs =>
    have := decidableOnlyInts (state.next c) cs
    inferInstanceAs (Decidable (_ ∧ _))

instance (c : BitVec 8) : Decidable (c ∈ intSpecifiers) :=
  decidable_of_iff (intSpecifiers.contains c = true) List.contains_iff_mem

/-- The number of its conversions. -/
def intConversions : FmtState → List (BitVec 8) → ℕ
  | _, [] => 0
  | state, c :: cs =>
    (if state = .format ∧ c ∈ intSpecifiers then 1 else 0) + intConversions (state.next c) cs

section Ints

variable {state : FmtState} {c : BitVec 8} {cs : List (BitVec 8)} {ints : List (BitVec 32)}
  {flag : Option FormatFlag} {t : List (BitVec 8)} {r : FormatReader}

theorem OnlyInts.usesShared (h : OnlyInts state cs) : UsesShared state cs := by
  induction cs generalizing state with
  | nil => trivial
  | cons c cs ih =>
    refine ⟨fun hstate => ?_, ih h.2⟩
    rcases h.1 hstate with hint | hflag | rfl
    · exact .inl (List.mem_append_left _ hint)
    · exact .inr hflag
    · exact .inl (by decide)

/-- **A step** over a character takes an argument exactly for a conversion. -/
theorem formatStep_ints
    (h : state = .format → c ∈ intSpecifiers ∨ c ∈ sharedFlags ∨ c = charByte '%')
    (hstep : FormatStep ⟨ints.map .int, state, flag⟩ c t r) :
    ∃ (ints' : List (BitVec 32)) (flag' : Option FormatFlag),
      r = ⟨ints'.map .int, state.next c, flag'⟩ ∧
      ints.length = (if state = .format ∧ c ∈ intSpecifiers then 1 else 0) + ints'.length := by
  generalize hr : (⟨ints.map .int, state, flag⟩ : FormatReader) = r₀ at hstep
  have hnext := hstep.state_eq
  cases hstep with
  | literal hc =>
    obtain ⟨rfl, rfl, rfl⟩ := FormatReader.mk.inj hr
    exact ⟨ints, flag, by rw [← hnext], by simp⟩
  | start =>
    obtain ⟨rfl, rfl, rfl⟩ := FormatReader.mk.inj hr
    exact ⟨ints, none, by rw [← hnext], by simp⟩
  | flag f =>
    obtain ⟨rfl, rfl, rfl⟩ := FormatReader.mk.inj hr
    refine ⟨ints, some f, by rw [← hnext], ?_⟩
    cases f <;> rw [if_neg (by decide), Nat.zero_add]
  | @conversion list _ conv =>
    obtain ⟨hlist, rfl, rfl⟩ := FormatReader.mk.inj hr
    -- Of the conversions, only those of an `int` and `%%` are left.
    have htaken : ∀ v, conv.args = [.int v] → conv.byte ∈ intSpecifiers →
        ∃ (ints' : List (BitVec 32)) (flag' : Option FormatFlag),
          (⟨list, .normal, flag⟩ : FormatReader)
            = ⟨ints'.map .int, FmtState.next .format conv.byte, flag'⟩ ∧
          ints.length = (if FmtState.format = .format ∧ conv.byte ∈ intSpecifiers then 1 else 0)
            + ints'.length := by
      intro v hargs hmem
      rw [hargs] at hlist
      cases ints with
      | nil => cases hlist
      | cons v' ints' =>
        obtain ⟨-, rfl⟩ := List.cons.inj hlist
        refine ⟨ints', flag, by rw [← hnext], ?_⟩
        rw [if_pos ⟨rfl, hmem⟩, List.length_cons, Nat.add_comm]
    cases conv with
    | int1 v | int2 v | uint v | octal v | hex v | char v =>
      exact htaken v rfl (by simp [intSpecifiers, Conversion.byte])
    | pointer v =>
      have hno : ¬ (charByte 'p' ∈ intSpecifiers ∨ charByte 'p' ∈ sharedFlags ∨
        charByte 'p' = charByte '%') := by decide
      exact absurd (h rfl) hno
    | string s =>
      have hno : ¬ (charByte 's' ∈ intSpecifiers ∨ charByte 's' ∈ sharedFlags ∨
        charByte 's' = charByte '%') := by decide
      exact absurd (h rfl) hno
    | specifier =>
      obtain rfl : ints.map VaArg.int = list := hlist
      refine ⟨ints, flag, by rw [← hnext], ?_⟩
      rw [if_neg (by decide), Nat.zero_add]

variable (flag) in
/-- There is a step, unless an argument is missing. -/
theorem exists_formatStep_ints
    (h : state = .format → c ∈ intSpecifiers ∨ c ∈ sharedFlags ∨ c = charByte '%')
    (hlen : (if state = .format ∧ c ∈ intSpecifiers then 1 else 0) ≤ ints.length) :
    ∃ t r, FormatStep ⟨ints.map .int, state, flag⟩ c t r := by
  cases state with
  | normal => exact exists_normal_step _ flag c
  | format =>
    rcases h rfl with hint | hflag | rfl
    · rw [if_pos ⟨rfl, hint⟩] at hlen
      cases ints with
      | nil => cases hlen
      | cons v ints =>
        obtain ⟨conv, rfl, hargs⟩ := mem_intSpecifiers hint v
        have hstep : FormatStep ⟨conv.args ++ ints.map .int, .format, flag⟩ conv.byte _ _ :=
          .conversion conv
        rw [hargs] at hstep
        exact ⟨_, _, hstep⟩
    · obtain ⟨f, rfl⟩ := mem_sharedFlags hflag
      exact ⟨_, _, .flag f⟩
    · exact ⟨_, _, .conversion .specifier⟩

variable (flag) in
/-- **The reading goes through** if and only if there are as many arguments as
conversions. -/
theorem exists_steps_ints_iff (h : OnlyInts state cs) :
    (∃ t r, Transducer.Steps FormatStep ⟨ints.map .int, state, flag⟩ cs t r) ↔
      intConversions state cs ≤ ints.length := by
  induction cs generalizing state ints flag with
  | nil => exact ⟨fun _ => Nat.zero_le _, fun _ => ⟨_, _, .nil _⟩⟩
  | cons c cs ih =>
    rw [intConversions]
    constructor
    · rintro ⟨t, r, hsteps⟩
      cases hsteps with
      | cons hstep hsteps =>
        obtain ⟨ints', flag', rfl, hlen⟩ := formatStep_ints h.1 hstep
        have hrest := (ih flag' h.2).mp ⟨_, _, hsteps⟩
        omega
    · intro hle
      obtain ⟨t, r, hstep⟩ := exists_formatStep_ints flag h.1
        ((Nat.le_add_right _ _).trans hle)
      obtain ⟨ints', flag', rfl, hlen⟩ := formatStep_ints h.1 hstep
      obtain ⟨u, r, hsteps⟩ := (ih flag' h.2).mpr (show _ ≤ ints'.length by omega)
      exact ⟨_, _, .cons hstep hsteps⟩

end Ints

/-! ## Error messages -/

section Messages

variable {δ : Type} {env : HandlerEnv} {dev : PortDevice δ} {s s' : KernelState δ}
  {t : List HandlerEvent} {cs : List (BitVec 8)} {ints : List (BitVec 32)} {msg : CharBuffer}

/-- **An error message is written** if and only if it has its arguments. No backend keeps
it back. -/
theorem exists_loggingLogMsg_error_iff (loggingFile formatString : CharBuffer) (file : CString)
    {b : LoggingBackend} (hmsg : msg.Holds cs) (hints : OnlyInts .normal cs) :
    (∃ t b', (loggingLogMsg loggingFile formatString .error file.chars msg
        (ints.map .int)).Runs b t () b') ↔ intConversions .normal cs ≤ ints.length := by
  have hlevel : ¬ LoggingLevel.error.value < b.level.value := by
    cases b.level <;> decide
  rw [← exists_steps_ints_iff none hints]
  constructor
  · rintro ⟨t, b', hrun⟩
    obtain ⟨b₁, _, _, _, hget, hbody, -⟩ := hrun.bind
    obtain ⟨rfl, -, rfl⟩ := Traced.runs_gets.mp hget
    rw [id, if_neg hlevel] at hbody
    obtain ⟨_, _, _, _, -, hnamed, -⟩ := hbody.bind
    obtain ⟨_, _, _, _, -, hwritten, -⟩ := hnamed.bind
    obtain ⟨_, _, _, _, htext, -, -⟩ := hwritten.bind
    obtain ⟨-, r, hsteps⟩ :=
      (logFormatedStr_runs_iff loggingFile formatString hmsg hints.usesShared).mp htext
    exact ⟨_, r, hsteps⟩
  · rintro ⟨t, r, hsteps⟩
    have htext : (logFormatedStr loggingFile formatString msg (ints.map .int)).Runs b t () b :=
      (logFormatedStr_runs_iff loggingFile formatString hmsg hints.usesShared).mpr ⟨rfl, r, hsteps⟩
    refine ⟨LoggingLevel.error.tag ++ (file.bytes ++ charBytes ": " ++ (t ++ [charByte '\n'])), b,
      Traced.Runs.gets_seq ?_⟩
    rw [id, if_neg hlevel]
    refine (logStrLoop_runs (stringLiteral "[ERROR] ") 8 0#64).seq
      ((logFileName_runs file b).seq (htext.seq ?_))
    exact Traced.runs_emit.mpr ⟨rfl, rfl⟩

/-- The handler logs an error in every build. -/
theorem exists_logMacro_error_iff :
    (∃ t s', (logMacro env .error (some msg) (ints.map .int)).Runs s t () s') ↔
      ∃ t b', (loggingLogMsg env.loggingFile.chars env.logArray .error env.file.chars msg
        (ints.map .int)).Runs s.backend t () b' := by
  have hmin : env.loggingMinLevel.value ≤ LoggingLevel.error.value := by
    cases env.loggingMinLevel <;> decide
  unfold logMacro Traced.when
  rw [if_pos hmin]
  constructor
  · rintro ⟨t, s', hrun⟩
    obtain ⟨_, hmsg, hrun⟩ := hrun.exists_of_option
    obtain rfl := Option.some.inj hmsg
    obtain ⟨u, b', hlog, -, -⟩ := Traced.runs_zoom.mp hrun
    exact ⟨u, b', hlog⟩
  · rintro ⟨u, b', hlog⟩
    exact ⟨_, _, Traced.Runs.some_seq (Traced.runs_zoom.mpr ⟨u, b', hlog, rfl, rfl⟩)⟩

/-! ## The descriptions -/

/-- The descriptions are strings with no other conversions than of an `int`. -/
theorem interruptDescriptions_onlyInts : ∀ i < 24, ∃ str, interruptDescriptions[i]? = some str ∧
    str.toList.length < 2 ^ 64 ∧ 0#8 ∉ charBytes str ∧ OnlyInts .normal (charBytes str) := by
  decide +kernel

/-- The number of arguments that an element of `interrupt_descriptions` asks for, if there
is one. -/
def descriptionConversions (i : ℕ) : Option ℕ :=
  interruptDescriptions[i]?.map fun str => intConversions .normal (charBytes str)

/-- **The case of an exception** ends if its description is there and has its arguments. -/
theorem exists_exceptionCase_iff (i : ℕ) :
    (∃ t r s', (exceptionCase env i (ints.map .int)).Runs s t r s') ↔
      ∃ n, descriptionConversions i = some n ∧ n ≤ ints.length := by
  have hcase : (∃ t r s', (exceptionCase env i (ints.map .int)).Runs s t r s') ↔
      ∃ t s', (logMacro env .error (interruptDescription i) (ints.map .int)).Runs s t () s' := by
    constructor
    · rintro ⟨t, r, s', hrun⟩
      obtain ⟨_, s₁, t₁, t₂, hlog, -, -⟩ := hrun.bind
      exact ⟨t₁, s₁, hlog⟩
    · rintro ⟨t, s', hlog⟩
      exact ⟨t, .halted, s', hlog.seq_pure⟩
  rw [hcase]
  by_cases hi : i < 24
  · obtain ⟨str, hstr, hlen, hzero, hints⟩ := interruptDescriptions_onlyInts i hi
    have hmsg : (stringLiteral str).Holds (charBytes str) := holds_stringLiteral hlen hzero
    rw [interruptDescription, descriptionConversions, hstr, Option.map_some,
      exists_logMacro_error_iff, exists_loggingLogMsg_error_iff _ _ _ hmsg hints]
    constructor
    · exact fun h => ⟨_, rfl, h⟩
    · rintro ⟨n, hn, h⟩
      obtain rfl := Option.some.inj hn
      exact h
  · -- There is no string behind the element, or no element.
    have hnone : interruptDescriptions[i]? = none := List.getElem?_eq_none (Nat.not_lt.mp hi)
    rw [interruptDescription, descriptionConversions, hnone, Option.map_none]
    constructor
    · rintro ⟨t, s', hrun⟩
      have hmin : env.loggingMinLevel.value ≤ LoggingLevel.error.value := by
        cases env.loggingMinLevel <;> decide
      unfold logMacro Traced.when at hrun
      rw [if_pos hmin] at hrun
      obtain ⟨_, hmsg, -⟩ := hrun.exists_of_option
      cases hmsg
    · rintro ⟨n, hn, -⟩
      cases hn

variable {stack : InterruptStackFrame} {fuel : ℕ} {q : List KeyEvent}

/-- Which exceptions have a description with as many arguments as they are passed. -/
theorem descriptionConversions_le :
    (∀ n ∈ intWithoutErrorCode.map BitVec.toNat,
      (∃ m, descriptionConversions n = some m ∧ m ≤ 0) ↔ n < 20) ∧
    (∀ n ∈ intWithErrorCode.map BitVec.toNat, ∃ m, descriptionConversions n = some m ∧ m ≤ 1) ∧
    (∃ m, descriptionConversions intPageFault.toNat = some m ∧ m ≤ 2) ∧
    ¬ ∃ m, descriptionConversions intDescriptionUnknownException = some m ∧ m ≤ 2 := by
  decide +kernel

/-- **What is handled.** The handler has an outcome on the exceptions below 20, on the one
with the vector 21 and on the lines of the interrupt controllers. On each of the others
it uses an argument that was not passed, or a description that is not there: what the
descriptions say from the vector 20 on is one element off, and the last is missing. -/
theorem interruptHandler_defined_iff (hfuel : kbdKeyEventBufferSize < fuel)
    (hq : s.ps2.kbd.keyEvents.Holds q) (stack : InterruptStackFrame) :
    (∃ t r s', (interruptHandler env dev fuel stack).Runs s t r s') ↔
      stack.interruptVector.toNat < 20 ∨ stack.interruptVector.toNat = 21 ∨
        32 ≤ stack.interruptVector.toNat ∧ stack.interruptVector.toNat < 48 := by
  obtain ⟨hwithoutCode, hwithCode, hpageFault, hunknown⟩ := descriptionConversions_le
  by_cases hirq : ∃ irq, IsIrq stack irq
  · obtain ⟨irq, hirq⟩ := hirq
    obtain ⟨t, s', hrun⟩ := interruptHandler_returns hfuel hq hirq
    obtain ⟨hlt, hv⟩ := hirq
    have htoNat : stack.interruptVector.toNat = 32 + irq := by
      rw [hv, BitVec.toNat_ofNat]
      exact Nat.mod_eq_of_lt (by omega)
    exact ⟨fun _ => .inr (.inr ⟨by omega, by omega⟩), fun _ => ⟨t, .returned, s', hrun⟩⟩
  · have hnot : ∀ irq, ¬ IsIrq stack irq := not_exists.mp hirq
    have hline : ¬ (32 ≤ stack.interruptVector.toNat ∧ stack.interruptVector.toNat < 48) := by
      rintro ⟨hle, hlt⟩
      refine hnot (stack.interruptVector.toNat - 32) ⟨by omega, ?_⟩
      rw [show 32 + (stack.interruptVector.toNat - 32) = stack.interruptVector.toNat by omega,
        BitVec.ofNat_toNat, BitVec.setWidth_eq]
    have hcase : ∀ (i : ℕ) (ints : List (BitVec 32)),
        (∃ t r s', (exceptionCase env i (ints.map .int)).Runs s t r s') ↔
          ∃ n, descriptionConversions i = some n ∧ n ≤ ints.length :=
      fun i ints => exists_exceptionCase_iff i
    rw [interruptHandler_of_not_isIrq hnot]
    split_ifs with hwithout hwith hfault
    · have hmem := List.mem_map_of_mem (f := BitVec.toNat) hwithout
      have hne : ∀ n ∈ intWithoutErrorCode.map BitVec.toNat, n ≠ 21 := by decide
      exact ((hcase _ []).trans (hwithoutCode _ hmem)).trans
        ⟨.inl, fun h => h.resolve_right (not_or.mpr ⟨hne _ hmem, hline⟩)⟩
    · have hmem := List.mem_map_of_mem (f := BitVec.toNat) hwith
      have hall : ∀ n ∈ intWithErrorCode.map BitVec.toNat, n < 20 ∨ n = 21 := by decide
      exact iff_of_true ((hcase _ [stack.errorCode.setWidth 32]).mpr (hwithCode _ hmem))
        ((hall _ hmem).imp_right .inl)
    · rw [hfault]
      obtain ⟨t, r, s', hrun⟩ :=
        (hcase _ [stack.errorCode.setWidth 32, s.cr2.setWidth 32]).mpr hpageFault
      exact iff_of_true ⟨t, r, s', Traced.Runs.gets_seq hrun⟩ (.inl (by decide))
    · have hlarge : ¬ stack.interruptVector.toNat < 32 := fun hlt => by
        rcases isException_of_lt hlt with hex | hex | hex
        exacts [hwithout hex, hwith hex, hfault hex]
      exact iff_of_false (mt (hcase _ [stack.interruptVector.setWidth 32,
        stack.errorCode.setWidth 32]).mp hunknown) (by omega)

/-- An interrupt of a vector behind the lines has no outcome. -/
theorem interruptHandler_defined_iff_unknown :
    ¬ ∃ t r s', (interruptHandler quietEnv byteQueue 33 (irqFrame 16)).Runs (readyKernel []) t r
      s' :=
  mt (interruptHandler_defined_iff (show kbdKeyEventBufferSize < 33 by decide)
    (KeyEventBuffer.holds_initial : (readyKernel []).ps2.kbd.keyEvents.Holds []) (irqFrame 16)).mp
    (by decide)

/-! ## Page faults -/

/-- **The report of a page fault** with an error code and an address. -/
def pageFaultReport (errorCode address : ℕ) : List (BitVec 8) :=
  charBytes "Page Fault: err=" ++ (numeral 10 errorCode ++
    (charBytes ", CR2=" ++ (numeral 16 address ++ charBytes "\n")))

/-- A page fault is reported with the low halves of its error code, as a signed number,
and of its address. -/
theorem interruptHandler_pageFault_runs (hv : stack.interruptVector = intPageFault) :
    (interruptHandler env dev fuel stack).Runs s
      (env.message s.backend .error (charBytes "Page Fault: err=" ++
        ((Conversion.int1 (stack.errorCode.setWidth 32)).rendering none ++
          (charBytes ", CR2=" ++ (numeral 16 (s.cr2.setWidth 32).toNat ++ charBytes "\n")))))
      .halted s := by
  have hfirst : ∀ c ∈ charBytes "Page Fault: err=", c ≠ charByte '%' := by decide
  have hsecond : ∀ c ∈ charBytes ", CR2=", c ≠ charByte '%' := by decide
  have hlast : ∀ c ∈ charBytes "\n", c ≠ charByte '%' := by decide
  let items : List FormatItem := literalItems _ hfirst ++
    (.conversion [] (.int1 (stack.errorCode.setWidth 32)) :: (literalItems _ hsecond ++
      (.conversion [] (.hex (s.cr2.setWidth 32)) :: literalItems _ hlast)))
  have hbytes : items.flatMap FormatItem.bytes = charBytes "Page Fault: err=%d, CR2=%x\n" := by
    simp only [items, List.flatMap_append, List.flatMap_cons, flatMap_bytes_literalItems]
    rfl
  have hargs : items.flatMap FormatItem.args = [vaUint64 stack.errorCode, vaUint64 s.cr2] := by
    simp only [items, List.flatMap_append, List.flatMap_cons, flatMap_args_literalItems]
    rfl
  have hwritten : items.flatMap FormatItem.written = charBytes "Page Fault: err=" ++
      ((Conversion.int1 (stack.errorCode.setWidth 32)).rendering none ++
        (charBytes ", CR2=" ++ (numeral 16 (s.cr2.setWidth 32).toNat ++ charBytes "\n"))) := by
    simp only [items, List.flatMap_append, List.flatMap_cons, flatMap_written_literalItems]
    rfl
  have hmsg : (stringLiteral "Page Fault: err=%d, CR2=%x\n").Holds
      (items.flatMap FormatItem.bytes) := by
    rw [hbytes]
    exact holds_stringLiteral (by decide) (by decide)
  have hlog : (logMacro env .error (some (stringLiteral "Page Fault: err=%d, CR2=%x\n"))
      (items.flatMap FormatItem.args ++ [])).Runs s
        (env.message s.backend .error (items.flatMap FormatItem.written)) () s :=
    logMacro_runs .error [] hmsg
  rw [hargs, hwritten, List.append_nil] at hlog
  unfold interruptHandler
  dsimp only
  rw [hv, if_neg (by decide), if_neg (by decide), if_pos rfl]
  exact Traced.Runs.gets_seq hlog.seq_pure

/-- A numeral tells its number. -/
theorem numeral_inj {base m n : ℕ} (hbase : 2 ≤ base) (hbase' : base ≤ 36) :
    numeral base m = numeral base n ↔ m = n := by
  refine ⟨fun h => ?_, fun h => by rw [h]⟩
  have hm := (isNumeral_numeral hbase hbase' m).value
  rw [h, (isNumeral_numeral hbase hbase' n).value] at hm
  exact (Option.some.inj hm).symm

/-- A character that is no digit is in no numeral. -/
theorem notMem_numeral_of_digitOf {base n : ℕ} (hbase : 2 ≤ base) (hbase' : base ≤ 36)
    {c : BitVec 8} (hc : digitOf c = none) : c ∉ numeral base n := by
  intro hmem
  obtain ⟨d, hd, rfl⟩ := mem_numeral hbase hmem
  rw [digitOf_digitChar (hd.trans_le hbase')] at hc
  cases hc

/-- **An unsigned number is right as an `int`** if and only if it fits. -/
theorem rendering_int1_eq_iff (v : BitVec 64) :
    (Conversion.int1 (v.setWidth 32)).rendering none = numeral 10 v.toNat ↔
      v.toNat < 2 ^ 31 := by
  have hlow : (v.setWidth 32).toNat = v.toNat % 2 ^ 32 := BitVec.toNat_setWidth 32 v
  have hint := BitVec.toInt_eq_toNat_cond (v.setWidth 32)
  rw [Conversion.rendering]
  by_cases hneg : (v.setWidth 32).toInt < 0
  · rw [if_pos hneg]
    refine iff_of_false (fun h => ?_) (fun hlt => ?_)
    · have hminus : charByte '-' ∈ numeral 10 v.toNat := h ▸ List.mem_cons_self
      exact notMem_numeral_of_digitOf (by decide) (by decide) (by decide) hminus
    · rw [if_pos (by omega)] at hint
      omega
  · rw [if_neg hneg]
    show numeral 10 (v.setWidth 32).toInt.natAbs = _ ↔ _
    rw [numeral_inj (by decide) (by decide)]
    have hlt : 2 * (v.setWidth 32).toNat < 2 ^ 32 := by
      by_contra hge
      rw [if_neg hge] at hint
      have := (v.setWidth 32).isLt
      omega
    rw [if_pos hlt] at hint
    omega

/-- An error message tells its text. -/
theorem message_error_inj (b : LoggingBackend) {text text' : List (BitVec 8)} :
    env.message b .error text = env.message b .error text' ↔ text = text' := by
  have hmin : env.loggingMinLevel.value ≤ LoggingLevel.error.value := by
    cases env.loggingMinLevel <;> decide
  have hlevel : ¬ LoggingLevel.error.value < b.level.value := by
    cases b.level <;> decide
  have hlogged : Function.Injective HandlerEvent.logged := fun _ _ => HandlerEvent.logged.inj
  rw [HandlerEnv.message, HandlerEnv.message, if_pos hmin, if_pos hmin,
    (List.map_injective_iff.mpr hlogged).eq_iff, LoggingBackend.line, LoggingBackend.line,
    if_neg hlevel, if_neg hlevel, List.append_cancel_left_eq, List.append_cancel_left_eq,
    List.append_cancel_right_eq]

/-- **What is reported of a page fault.** The handler reports its error code and its
address, and halts. The report is right if and only if the error code is less than
`2 ^ 31` and the address less than `2 ^ 32`: so never of an address in the kernel's half
of the address space. -/
theorem interruptHandler_pageFault_iff (hv : stack.interruptVector = intPageFault) :
    ∃ t, (interruptHandler env dev fuel stack).Runs s t .halted s ∧
      (t = env.message s.backend .error (pageFaultReport stack.errorCode.toNat s.cr2.toNat) ↔
        stack.errorCode.toNat < 2 ^ 31 ∧ s.cr2.toNat < 2 ^ 32) := by
  refine ⟨_, interruptHandler_pageFault_runs hv, ?_⟩
  have hdigits : ∀ n, charByte ',' ∉ numeral 10 n := fun n =>
    notMem_numeral_of_digitOf (by decide) (by decide) (by decide)
  have hint : charByte ',' ∉ (Conversion.int1 (stack.errorCode.setWidth 32)).rendering none := by
    rw [Conversion.rendering]
    split
    · exact List.not_mem_append (by decide) (hdigits _)
    · exact List.not_mem_append (by decide) (hdigits _)
  have hrest : charByte ',' ∉
      charBytes " CR2=" ++ (numeral 16 (s.cr2.setWidth 32).toNat ++ charBytes "\n") :=
    List.not_mem_append (by decide) (List.not_mem_append
      (notMem_numeral_of_digitOf (by decide) (by decide) (by decide)) (by decide))
  have hcomma : ∀ text, charBytes ", CR2=" ++ text
      = charByte ',' :: (charBytes " CR2=" ++ text) := fun _ => rfl
  rw [message_error_inj, pageFaultReport, List.append_cancel_left_eq, hcomma, hcomma,
    List.append_cons_inj_of_notMem hint hrest, List.append_cancel_left_eq,
    List.append_cancel_right_eq, rendering_int1_eq_iff, numeral_inj (by decide) (by decide),
    BitVec.toNat_setWidth, eq_self, true_and]
  refine and_congr_right fun _ => ⟨fun h => ?_, fun h => Nat.mod_eq_of_lt h⟩
  rw [← h]
  exact Nat.mod_lt _ (by decide)

/-- A page fault in the kernel is reported with another address. -/
theorem interruptHandler_pageFault_iff_kernel :
    ∃ t, (interruptHandler quietEnv byteQueue 33 { irqFrame 0 with interruptVector := 14#64 }).Runs
        { readyKernel [] with cr2 := 0xffffffff80000000#64 } t .halted
          { readyKernel [] with cr2 := 0xffffffff80000000#64 } ∧
      t ≠ quietEnv.message ⟨.debug⟩ .error (pageFaultReport 32 0xffffffff80000000) := by
  obtain ⟨t, hrun, hiff⟩ := interruptHandler_pageFault_iff
    (show ({ irqFrame 0 with interruptVector := 14#64 } : InterruptStackFrame).interruptVector
      = intPageFault from rfl)
  exact ⟨t, hrun, mt hiff.mp (by decide)⟩

end Messages
