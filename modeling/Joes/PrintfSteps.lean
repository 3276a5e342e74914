import Joes.Printf

/-!
# The steps of `printf`

`printf` reads a format string like the logger, except that it has one more
conversion, `%n`, and a counter. `PrintStep` adds these two to the steps of
`FormatStep`: what is written for a character is counted, but for the two characters
before the digits of `%p`, and `%n` stores the counter. The loop of `printf`
implements this transducer (`stateCase_implements`).

This has two directions. Where the reading has a step `printf` takes it: the switch
finds the case of the character, the argument is at the head of the list, and the number
is converted to what the step writes, whatever is in the array (`stateCase_runs`). And
where `printf` has a run for a character that is allowed, the reading has a step
(`exists_step_of_stateCase`). For this it is enough to look at the first thing the case
does. A conversion begins with its `va_arg`, and that has a run only if there is an
argument of the type it asks for (`vaArg_taken`). That is all the step needs, but for a
string, whose length has to be found as well.

The loop goes over the characters up to the 0 (`printf_runs_iff`), so with both
directions its runs are those of the reading. It returns the counter of the last state, or
-1 after a character that is neither a conversion nor a flag (`result`).
-/

/-- **The reading of a format string by `printf`**, with its counter. -/
structure PrintReader where
  reader : FormatReader
  written : BitVec 64

/-- The number of characters that are written for a character of the format string
and not counted. -/
def uncounted (state : FmtState) (c : BitVec 8) : ℕ :=
  if state = .format ∧ c = charByte 'p' then 2 else 0

/-- **A step of `printf`**, and what it does for it. -/
inductive PrintStep : PrintReader → BitVec 8 → List PrintEvent → PrintReader → Prop
  | format {r r' : FormatReader} {n : BitVec 64} {c : BitVec 8} {t : List (BitVec 8)}
      (h : FormatStep r c t r') :
      PrintStep ⟨r, n⟩ c (t.map .terminalPutChar)
        ⟨r', n + BitVec.ofNat 64 (t.length - uncounted r.state c)⟩
  | noOutput {list : List VaArg} {flag : Option FormatFlag} {n : BitVec 64}
      (pointer : BitVec 64) :
      PrintStep ⟨⟨.pointer pointer :: list, .format, flag⟩, n⟩ (charByte 'n')
        [.store pointer (n.setWidth 32)] ⟨⟨list, .normal, flag⟩, n⟩

/-- The characters that are allowed where the reading is, without the specifier of `%n`. -/
def PrintReader.Allows (p : PrintReader) (c : BitVec 8) : Prop := p.reader.Allows c

namespace Printf

/-- The mode of `printf` where the reading has one. -/
def State.ofFmt : FmtState → State
  | .normal => normal
  | .format => format

/-- The variables of `printf` are those of the reading. -/
structure Locals.Reads (l : Locals) (p : PrintReader) : Prop where
  list : l.list = p.reader.list
  state : l.state = .ofFmt p.reader.state
  posNumberPrefix :
    p.reader.state = .format → l.posNumberPrefix = p.reader.flag.elim 0#8 FormatFlag.byte
  written : l.written = p.written

variable {l : Locals} {p p' : PrintReader} {c : BitVec 8} {list : List VaArg}
  {flag : Option FormatFlag} {s t : List (BitVec 8)} {n : BitVec 64}

/-! ## Strings and numbers -/

theorem terminalWriteStringLoop_runs (str : CharBuffer) (n : ℕ) (i : BitVec 64) :
    (terminalWriteStringLoop str n i).Runs () ((str.chars n i).map .terminalPutChar) () () := by
  induction n generalizing i with
  | zero => exact Traced.runs_pure.mpr ⟨rfl, rfl, rfl⟩
  | succ n ih => exact Traced.Runs.emit_seq (ih _)

/-- **A string** is printed as it is. -/
theorem terminalWriteString_runs {str : CharBuffer} (h : str.Holds s) :
    (terminalWriteString str (BitVec.ofNat 64 s.length)).Runs ()
      (s.map .terminalPutChar) () () := by
  have hrun := terminalWriteStringLoop_runs str s.length 0#64
  rw [h.chars_eq] at hrun
  rwa [terminalWriteString, h.toNat_length]

/-- The first argument, where it is of the type that is asked for. -/
theorem vaArg_runs {α : Type} {type : VaArg → Option α} {arg : VaArg} {v : α}
    {list' : List VaArg} (h : list' = arg :: list) (htype : type arg = some v) :
    (vaArg type list').Runs () [] (v, list) () := by
  subst h
  rw [vaArg, htype]
  exact Traced.Runs.some_seq (Traced.runs_pure.mpr ⟨rfl, rfl, rfl⟩)

/-- **A number** is printed after what comes before it. -/
theorem writeNumber_runs {before : PrintProgram (BitVec 64)} {converted : Option CharBuffer}
    {m : ℕ} (hbefore : before.Runs () (t.map .terminalPutChar) n ())
    (hconverted : ∃ str, converted = some str ∧ str.Holds s)
    (hm : n + BitVec.ofNat 64 s.length = BitVec.ofNat 64 m) :
    ∃ l', l'.state = .normal ∧ l'.list = list ∧ l'.written = l.written + BitVec.ofNat 64 m ∧
      (writeNumber l list before converted).Runs () ((t ++ s).map .terminalPutChar)
        (some l') () := by
  obtain ⟨str, rfl, hstr⟩ := hconverted
  refine ⟨⟨list, l.written + n + BitVec.ofNat 64 s.length, .normal, l.posNumberPrefix, str⟩,
    rfl, rfl, ?_, ?_⟩
  · rw [← hm, ← BitVec.add_assoc]
  · refine Traced.Runs.some_seq ?_
    rw [strlen_eq hstr, List.map_append]
    exact Traced.Runs.some_seq (hbefore.seq (terminalWriteString_runs hstr).seq_pure)

/-- The flag that is printed before a signed number, and counted. -/
theorem flag_runs {v : BitVec 32} {prefixByte : BitVec 8}
    (h : prefixByte = flag.elim 0#8 FormatFlag.byte) :
    (if prefixByte ≠ 0#8 ∧ (0#32).sle v then do
        terminalPutChar prefixByte
        pure 1#64
      else pure 0#64 : PrintProgram (BitVec 64)).Runs ()
      ((if v.toInt < 0 then [] else flag.toList.map FormatFlag.byte).map .terminalPutChar)
      (BitVec.ofNat 64 (if v.toInt < 0 then [] else flag.toList.map FormatFlag.byte).length)
      () := by
  have hsle : (0#32).sle v = true ↔ ¬ v.toInt < 0 := by
    rw [BitVec.sle_iff_toInt_le, Int.not_lt]
    rfl
  subst h
  by_cases hneg : v.toInt < 0
  · rw [if_neg fun h => hsle.mp h.2 hneg, if_pos hneg]
    exact Traced.runs_pure.mpr ⟨rfl, rfl, rfl⟩
  · rw [if_neg hneg]
    cases flag with
    | none =>
      rw [if_neg fun h => h.1 rfl]
      exact Traced.runs_pure.mpr ⟨rfl, rfl, rfl⟩
    | some flag =>
      have hne : flag.byte ≠ 0#8 := by cases flag <;> decide
      rw [if_pos ⟨hne, hsle.mpr hneg⟩]
      exact Traced.Runs.emit_seq (Traced.runs_pure.mpr ⟨rfl, rfl, rfl⟩)

/-- **A signed number** is printed with a sign or with its flag, and all of it is
counted. -/
theorem writeInt_runs {v : BitVec 32} (hlist : l.list = .int v :: list)
    (hflag : l.posNumberPrefix = flag.elim 0#8 FormatFlag.byte) :
    ∃ l', l'.state = .normal ∧ l'.list = list ∧
      l'.written = l.written + BitVec.ofNat 64 ((Conversion.int1 v).written flag).length ∧
      (writeInt l).Runs () (((Conversion.int1 v).written flag).map .terminalPutChar)
        (some l') () := by
  have hconverted : ∃ str, itoa (v.signExtend 64) l.formatString 10#32 = some str ∧
      str.Holds (signedNumeral 10 v.toInt) := by
    rw [← BitVec.toInt_signExtend_of_le (show 32 ≤ 64 by decide)]
    exact itoa_holds (by decide) (by decide) _ _
  have hwritten : (Conversion.int1 v).written flag =
      (if v.toInt < 0 then [] else flag.toList.map FormatFlag.byte) ++
        signedNumeral 10 v.toInt := by
    show (Conversion.int1 v).rendering flag = _
    rw [Conversion.rendering, signedNumeral]
    split <;> rfl
  rw [hwritten, List.length_append]
  obtain ⟨l', hstate, hlist', hcount, hrun⟩ :=
    writeNumber_runs (l := l) (flag_runs hflag) hconverted (BitVec.ofNat_add _ _).symm
  exact ⟨l', hstate, hlist', hcount,
    (vaArg_runs hlist (show vaInt (.int v) = some v from rfl)).seq hrun⟩

/-- **An unsigned number** is printed after what comes before it. -/
theorem writeUint_runs {v base : BitVec 32} {before : PrintProgram (BitVec 64)} {m : ℕ}
    (hbase : 2 ≤ base.toNat ∧ base.toNat ≤ 36) (hlist : l.list = .int v :: list)
    (hbefore : before.Runs () (t.map .terminalPutChar) n ())
    (hm : n + BitVec.ofNat 64 (numeral base.toNat v.toNat).length = BitVec.ofNat 64 m) :
    ∃ l', l'.state = .normal ∧ l'.list = list ∧ l'.written = l.written + BitVec.ofNat 64 m ∧
      (writeUint l before base).Runs () ((t ++ numeral base.toNat v.toNat).map .terminalPutChar)
        (some l') () := by
  have hconverted := utoa_holds hbase.1 hbase.2 (v.setWidth 64) l.formatString
  rw [BitVec.toNat_setWidth_of_le (by decide)] at hconverted
  obtain ⟨l', hstate, hlist', hcount, hrun⟩ := writeNumber_runs hbefore hconverted hm
  exact ⟨l', hstate, hlist', hcount,
    (vaArg_runs hlist (show vaInt (.int v) = some v from rfl)).seq hrun⟩

/-- **A specifier** leads back to normal mode, with its argument taken and its
conversion printed. The counter misses the first two characters of `%p`. -/
theorem formatCase_runs (conv : Conversion) (hlist : l.list = conv.args ++ list)
    (hflag : l.posNumberPrefix = flag.elim 0#8 FormatFlag.byte) :
    ∃ l', l'.state = .normal ∧ l'.list = list ∧
      l'.written = l.written +
        BitVec.ofNat 64 ((conv.written flag).length - uncounted .format conv.byte) ∧
      (formatCase l conv.byte).Runs () ((conv.written flag).map .terminalPutChar)
        (some l') () := by
  have hpure : (pure 0#64 : PrintProgram (BitVec 64)).Runs ()
      (([] : List (BitVec 8)).map .terminalPutChar) 0#64 () :=
    Traced.runs_pure.mpr ⟨rfl, rfl, rfl⟩
  have hnormal : ∀ l' : Locals, (pure (some l') : PrintProgram (Option Locals)).Runs () []
      (some l') () := fun l' => Traced.runs_pure.mpr ⟨rfl, rfl, rfl⟩
  cases conv with
  | int1 v => exact writeInt_runs hlist hflag
  | int2 v => exact writeInt_runs hlist hflag
  | uint v =>
    have hbefore : (do
        terminalPutChar l.posNumberPrefix
        pure 1#64 : PrintProgram (BitVec 64)).Runs ()
          ([flag.elim 0#8 FormatFlag.byte].map .terminalPutChar) 1#64 () := by
      rw [hflag]
      exact Traced.Runs.emit_seq (Traced.runs_pure.mpr ⟨rfl, rfl, rfl⟩)
    have hm : 1#64 + BitVec.ofNat 64 (numeral 10 v.toNat).length =
        BitVec.ofNat 64 ((numeral 10 v.toNat).length + 1) := by
      rw [BitVec.ofNat_add, BitVec.add_comm]
    exact writeUint_runs ⟨by decide, by decide⟩ hlist hbefore hm
  | octal v =>
    exact writeUint_runs ⟨by decide, by decide⟩ hlist hpure (BitVec.zero_add _)
  | hex v =>
    exact writeUint_runs ⟨by decide, by decide⟩ hlist hpure (BitVec.zero_add _)
  | pointer v =>
    have hbefore : (do
        terminalWriteString (stringLiteral "0x") 2#64
        pure 0#64 : PrintProgram (BitVec 64)).Runs ()
          ([charByte '0', charByte 'x'].map .terminalPutChar) 0#64 () :=
      (terminalWriteStringLoop_runs (stringLiteral "0x") 2 0#64).seq_pure
    have hconverted : ∃ str, utoa v l.formatString 16#32 = some str ∧
      str.Holds (numeral 16 v.toNat) := utoa_holds (by decide) (by decide) v l.formatString
    obtain ⟨l', hstate, hlist', hcount, hrun⟩ :=
      writeNumber_runs hbefore hconverted (BitVec.zero_add _)
    exact ⟨l', hstate, hlist', hcount,
      (vaArg_runs hlist (show vaPointer (.pointer v) = some v from rfl)).seq hrun⟩
  | char v =>
    refine ⟨{ l with list := list, written := l.written + 1#64, state := .normal },
      rfl, rfl, rfl, ?_⟩
    exact (vaArg_runs hlist (show vaInt (.int v) = some v from rfl)).seq
      (Traced.Runs.emit_seq (hnormal _))
  | string s =>
    refine ⟨{ l with
      list := list
      written := l.written + BitVec.ofNat 64 s.bytes.length
      state := .normal }, rfl, rfl, rfl, ?_⟩
    refine (vaArg_runs hlist (show vaString (.string s.chars) = some s.chars from rfl)).seq ?_
    dsimp only
    rw [strlen_eq s.holds]
    exact Traced.Runs.some_seq (terminalWriteString_runs s.holds).seq_pure
  | specifier =>
    exact ⟨{ l with written := l.written + 1#64, state := .normal }, rfl, hlist, rfl,
      Traced.Runs.emit_seq (hnormal _)⟩

/-! ## The format string -/

theorem stateCase_normal (h : l.state = .normal) (c : BitVec 8) :
    stateCase l c =
      if c = charByte '%' then
        pure (some { l with state := .format, posNumberPrefix := noPrefix })
      else
        terminalPutChar c >>= fun _ => pure (some { l with written := l.written + 1#64 }) := by
  unfold stateCase
  split
  · rfl
  · next hformat => cases h.symm.trans hformat

theorem stateCase_format (h : l.state = .format) (c : BitVec 8) :
    stateCase l c = formatCase l c := by
  unfold stateCase
  split
  · next hnormal => cases h.symm.trans hnormal
  · rfl

/-- **A step of the reading** `printf` takes, and it counts what it prints. -/
theorem stateCase_runs_format {r r' : FormatReader} (hl : l.Reads ⟨r, n⟩)
    (hstep : FormatStep r c t r') :
    ∃ l', (stateCase l c).Runs () (t.map .terminalPutChar) (some l') () ∧
      l'.Reads ⟨r', n + BitVec.ofNat 64 (t.length - uncounted r.state c)⟩ := by
  obtain rfl : l.written = n := hl.written
  cases hstep with
  | literal hc =>
    refine ⟨{ l with written := l.written + 1#64 }, ?_, hl.list, hl.state, hl.posNumberPrefix,
      rfl⟩
    rw [stateCase_normal hl.state, if_neg hc]
    exact Traced.Runs.emit_seq (Traced.runs_pure.mpr ⟨rfl, rfl, rfl⟩)
  | start =>
    refine ⟨{ l with state := .format, posNumberPrefix := noPrefix }, ?_, hl.list, rfl,
      fun _ => rfl, (BitVec.add_zero _).symm⟩
    rw [stateCase_normal hl.state, if_pos rfl]
    exact Traced.runs_pure.mpr ⟨rfl, rfl, rfl⟩
  | flag f =>
    refine ⟨{ l with posNumberPrefix := f.byte }, ?_, hl.list, hl.state, fun _ => rfl, ?_⟩
    · rw [stateCase_format hl.state]
      cases f <;> exact Traced.runs_pure.mpr ⟨rfl, rfl, rfl⟩
    · rw [List.length_nil, Nat.zero_sub]
      exact (BitVec.add_zero _).symm
  | conversion conv =>
    rw [stateCase_format hl.state]
    obtain ⟨l', hstate, hlist, hcount, hrun⟩ :=
      formatCase_runs conv hl.list (hl.posNumberPrefix rfl)
    refine ⟨l', hrun, hlist, hstate, fun h => ?_, hcount⟩
    cases h

/-- **What the transducer does** for a character `printf` does. -/
theorem stateCase_runs (hl : l.Reads p) {u : List PrintEvent} (hstep : PrintStep p c u p') :
    ∃ l', (stateCase l c).Runs () u (some l') () ∧ l'.Reads p' := by
  cases hstep with
  | format h => exact stateCase_runs_format hl h
  | @noOutput list flag n pointer =>
    obtain rfl : l.written = n := hl.written
    refine ⟨{ l with list := list, state := .normal }, ?_, rfl, rfl, nofun, rfl⟩
    rw [stateCase_format hl.state]
    exact (vaArg_runs hl.list (show vaPointer (.pointer pointer) = some pointer from rfl)).seq
      (Traced.Runs.emit_seq (Traced.runs_pure.mpr ⟨rfl, rfl, rfl⟩))

/-- An argument is taken where it is of the type that is asked for. -/
theorem vaArg_taken {α β : Type} {type : VaArg → Option α}
    {f : α × List VaArg → PrintProgram β} {u : List PrintEvent} {b : β}
    (h : (vaArg type list >>= f).Runs () u b ()) :
    ∃ arg v list', list = arg :: list' ∧ type arg = some v ∧ (f (v, list')).Runs () u b () := by
  cases list with
  | nil => cases h
  | cons arg list =>
    obtain ⟨_, _, u₁, u₂, harg, hrun, rfl⟩ := h.bind
    obtain ⟨v, htype, harg⟩ := harg.exists_of_option
    obtain ⟨rfl, rfl, rfl⟩ := Traced.runs_pure.mp harg
    exact ⟨arg, v, list, rfl, htype, hrun⟩

theorem vaInt_eq_some {arg : VaArg} {v : BitVec 32} (h : vaInt arg = some v) : arg = .int v := by
  cases arg with
  | int w => exact congrArg VaArg.int (Option.some.inj h)
  | _ => cases h

theorem vaPointer_eq_some {arg : VaArg} {v : BitVec 64} (h : vaPointer arg = some v) :
    arg = .pointer v := by
  cases arg with
  | pointer w => exact congrArg VaArg.pointer (Option.some.inj h)
  | _ => cases h

theorem vaString_eq_some {arg : VaArg} {v : CharBuffer} (h : vaString arg = some v) :
    arg = .string v := by
  cases arg with
  | string w => exact congrArg VaArg.string (Option.some.inj h)
  | _ => cases h

theorem formatCase_int (l : Locals) (hc : c ∈ intSpecifiers) :
    ∃ f, formatCase l c = vaArg vaInt l.list >>= f := by
  simp only [intSpecifiers, List.mem_cons, List.not_mem_nil, or_false] at hc
  rcases hc with rfl | rfl | rfl | rfl | rfl | rfl <;> exact ⟨_, rfl⟩

/-- **Where `printf` goes on or returns** for a character the reading has a step. -/
theorem exists_step_of_stateCase {r : FormatReader} {o : Option Locals} {u : List PrintEvent}
    (hl : l.Reads ⟨r, n⟩) (hc : r.Allows c) (hrun : (stateCase l c).Runs () u o ()) :
    ∃ t r', FormatStep r c t r' := by
  obtain ⟨list, state, flag⟩ := r
  cases state with
  | normal => exact exists_normal_step list flag c
  | format =>
    rw [stateCase_format hl.state] at hrun
    obtain rfl : l.list = list := hl.list
    rcases hc rfl with hc | hc
    · refine exists_conversion_step flag hc (fun hc => ?_) ?_ ?_
      · obtain ⟨f, hf⟩ := formatCase_int l hc
        rw [hf] at hrun
        obtain ⟨arg, v, list', hlist, harg, -⟩ := vaArg_taken hrun
        exact ⟨v, list', vaInt_eq_some harg ▸ hlist⟩
      · rintro rfl
        obtain ⟨arg, v, list', hlist, harg, -⟩ := vaArg_taken hrun
        exact ⟨v, list', vaPointer_eq_some harg ▸ hlist⟩
      · rintro rfl
        obtain ⟨arg, s, list', hlist, harg, hrun⟩ := vaArg_taken hrun
        obtain ⟨len, hlen, -⟩ := Traced.Runs.exists_of_option hrun
        exact ⟨s, len, list', vaString_eq_some harg ▸ hlist, hlen⟩
    · obtain ⟨f, rfl⟩ := mem_sharedFlags hc
      exact ⟨_, _, .flag f⟩

/-- **`printf` implements its transducer.** -/
theorem stateCase_implements :
    Traced.Implements stateCase PrintStep PrintReader.Allows Locals.Reads where
  runs _ hl hstep := stateCase_runs hl hstep
  step hl hc hrun := by
    obtain ⟨t, r', hstep⟩ := exists_step_of_stateCase hl hc hrun
    exact ⟨_, _, .format hstep⟩

/-- What `printf` returns: its counter, or -1 where it has stopped. -/
def result (o : Option Locals) : BitVec 64 := o.elim (-1#64) Locals.written

/-- The loop of `printf` is one over the characters. -/
theorem printfLoop_eq (str : CharBuffer) (k : ℕ) (i : BitVec 64) (l : Locals) :
    printfLoop str k i l = Traced.foldResult stateCase result (str.chars k i) l := by
  induction k generalizing i l with
  | zero => rfl
  | succ k ih =>
    rw [printfLoop, CharBuffer.chars, Traced.foldResult]
    refine bind_congr fun next => ?_
    cases next with
    | none => rfl
    | some l => exact ih _ l

/-- **`printf` runs** as the loop over the characters of its format string does. -/
theorem printf_runs_iff (formatString : CharBuffer) {str : CharBuffer} {cs : List (BitVec 8)}
    (hstr : str.Holds cs) {u : List PrintEvent} {ret : BitVec 64} :
    (printf formatString str list).Runs () u ret () ↔
      ∃ o, (Traced.foldSymbols stateCase cs ⟨list, 0#64, .normal, noPrefix, formatString⟩).Runs
        () u o () ∧ result o = ret := by
  rw [printf, strlen_eq hstr, Traced.runs_some_seq, hstr.toNat_length, printfLoop_eq,
    hstr.chars_eq, Traced.runs_foldResult]

/-- The variables of `printf` at its start are those of the reading. -/
theorem reads_start (list : List VaArg) (formatString : CharBuffer) :
    Locals.Reads ⟨list, 0#64, .normal, noPrefix, formatString⟩ ⟨⟨list, .normal, none⟩, 0#64⟩ :=
  ⟨rfl, rfl, fun _ => rfl, rfl⟩

/-- **`printf` prints what its steps do**, and returns its counter. -/
theorem printf_runs_steps (formatString : CharBuffer) {str : CharBuffer} {cs : List (BitVec 8)}
    (hstr : str.Holds cs) {u : List PrintEvent}
    (hsteps : Transducer.Steps PrintStep ⟨⟨list, .normal, none⟩, 0#64⟩ cs u p) :
    (printf formatString str list).Runs () u p.written () := by
  obtain ⟨l', hrun, hl'⟩ :=
    stateCase_implements.foldSymbols_runs hsteps (reads_start list formatString) ()
  exact (printf_runs_iff formatString hstr).mpr ⟨some l', hrun, hl'.written⟩

end Printf
