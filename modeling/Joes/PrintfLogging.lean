import Joes.PrintfSteps

/-!
# `printf` and the logger

`log_formated_str` was copied from `printf`, and the two are to do the same for the
same format string and arguments, where the backend of the logger is
`terminal_log_write`. Both are interpreters of format strings, so the one is compared
with the other through their transducers: on the characters that both accept a step
of `printf` is one of the reading, with a counter beside it.

To take an argument as one of another type has no meaning. Both return for the same
arguments then, and take the same ones up to each character, so they ask for the same
types (`printf_agrees_with_logger`).
-/

/-- `terminal_log_write`. -/
def terminalLogWrite (c : BitVec 8) : PrintEvent := .terminalPutChar c

/-- **The logger over a part of its format string** does `t`, with `rest` left of its
arguments. -/
def LoggerLeaves (file formatString : CharBuffer) (cs : List (BitVec 8)) (list : List VaArg)
    (b : LoggingBackend) (t : List PrintEvent) (rest : List VaArg) : Prop :=
  ∃ u l, (Traced.foldSymbols (logFormatChar (logUnknownSpecifier file formatString)) cs
      ⟨list, .normal, noPrefix, formatString⟩).Runs b u (some l) b ∧
    t = u.map terminalLogWrite ∧ l.list = rest

/-- **`printf` over a part of its format string** does `t`, with `rest` left of its
arguments. -/
def PrintfLeaves (formatString : CharBuffer) (cs : List (BitVec 8)) (list : List VaArg)
    (t : List PrintEvent) (rest : List VaArg) : Prop :=
  ∃ l, (Traced.foldSymbols Printf.stateCase cs
      ⟨list, 0#64, .normal, Printf.noPrefix, formatString⟩).Runs () t (some l) () ∧
    l.list = rest

/-! ## The steps of the two -/

section Steps

variable {r r' : FormatReader} {p p' : PrintReader} {c : BitVec 8} {cs : List (BitVec 8)}
  {u : List (BitVec 8)} {t : List PrintEvent}

/-- The mode changes with the reading. -/
theorem PrintStep.state_eq (h : PrintStep p c t p') :
    p'.reader.state = p.reader.state.next c := by
  cases h with
  | format h => exact h.state_eq
  | noOutput pointer => rfl

theorem UsesShared.accepts_print (h : UsesShared p.reader.state cs) :
    Transducer.Accepts PrintStep PrintReader.Allows p cs :=
  accepts_of PrintReader.reader PrintStep.state_eq h

/-- **The steps of the reading** are steps of `printf`. -/
theorem printSteps_of_formatSteps (h : Transducer.Steps FormatStep r cs u r') (n : BitVec 64) :
    ∃ p, Transducer.Steps PrintStep ⟨r, n⟩ cs (u.map terminalLogWrite) p ∧ p.reader = r' := by
  refine Transducer.Steps.map (fun (r : FormatReader) (p : PrintReader) => p.reader = r) ?_ h
    (show (PrintReader.mk r n).reader = r from rfl)
  rintro r c u r₁ p hstep rfl
  exact ⟨_, .format hstep, rfl⟩

/-- **The steps of `printf`** are steps of the reading, where only what is shared is
used. -/
theorem formatSteps_of_printSteps (h : Transducer.Steps PrintStep p cs t p')
    (hshared : UsesShared p.reader.state cs) :
    ∃ u, Transducer.Steps FormatStep p.reader cs u p'.reader ∧ t = u.map terminalLogWrite := by
  induction h with
  | nil p => exact ⟨[], .nil _, rfl⟩
  | cons hstep _ ih =>
    obtain ⟨u₂, hsteps, rfl⟩ := ih (hstep.state_eq ▸ hshared.2)
    cases hstep with
    | @format r r₁ n c u₁ h =>
      exact ⟨u₁ ++ u₂, .cons h hsteps, List.map_append.symm⟩
    | noOutput pointer => exact absurd (hshared.1 rfl) (by decide)

end Steps

/-! ## The agreement -/

section Agreement

variable {str : CharBuffer} {cs : List (BitVec 8)} {list rest : List VaArg} {b : LoggingBackend}
  {t : List PrintEvent}

theorem loggerLeaves_iff (file formatString : CharBuffer) (hshared : UsesShared .normal cs) :
    LoggerLeaves file formatString cs list b t rest ↔
      ∃ u r, Transducer.Steps FormatStep ⟨list, .normal, none⟩ cs u r ∧
        t = u.map terminalLogWrite ∧ r.list = rest := by
  have hreads : FmtLocals.Reads ⟨list, .normal, noPrefix, formatString⟩ ⟨list, .normal, none⟩ :=
    ⟨rfl, rfl, fun _ => rfl⟩
  constructor
  · rintro ⟨u, l, hrun, rfl, rfl⟩
    obtain ⟨-, l', r, ho, hl', hsteps⟩ :=
      logFormatChar_implements.steps_of_foldSymbols hshared.accepts hreads hrun
    obtain rfl := Option.some.inj ho
    exact ⟨u, r, hsteps, rfl, hl'.list.symm⟩
  · rintro ⟨u, r, hsteps, rfl, rfl⟩
    obtain ⟨l, hrun, hl⟩ := logFormatChar_implements.foldSymbols_runs hsteps hreads b
    exact ⟨u, l, hrun, rfl, hl.list⟩

theorem printfLeaves_iff (formatString : CharBuffer) (hshared : UsesShared .normal cs) :
    PrintfLeaves formatString cs list t rest ↔
      ∃ u r, Transducer.Steps FormatStep ⟨list, .normal, none⟩ cs u r ∧
        t = u.map terminalLogWrite ∧ r.list = rest := by
  have hreads := Printf.reads_start list formatString
  constructor
  · rintro ⟨l, hrun, rfl⟩
    obtain ⟨-, l', p, ho, hl', hsteps⟩ :=
      Printf.stateCase_implements.steps_of_foldSymbols hshared.accepts_print hreads hrun
    obtain rfl := Option.some.inj ho
    obtain ⟨u, hformat, rfl⟩ := formatSteps_of_printSteps hsteps hshared
    exact ⟨u, p.reader, hformat, rfl, hl'.list.symm⟩
  · rintro ⟨u, r, hsteps, rfl, rfl⟩
    obtain ⟨p, hprint, rfl⟩ := printSteps_of_formatSteps hsteps 0#64
    obtain ⟨l, hrun, hl⟩ := Printf.stateCase_implements.foldSymbols_runs hprint hreads ()
    exact ⟨l, hrun, hl.list⟩

/-- The start of a format string uses only what is shared if the whole does. -/
theorem UsesShared.of_append {state : FmtState} {cs ds : List (BitVec 8)}
    (h : UsesShared state (cs ++ ds)) : UsesShared state cs := by
  induction cs generalizing state with
  | nil => trivial
  | cons c cs ih => exact ⟨h.1, ih h.2⟩

theorem printf_runs_shared_iff (formatString : CharBuffer) (hstr : str.Holds cs)
    (hshared : UsesShared .normal cs) :
    (∃ ret, (Printf.printf formatString str list).Runs () t ret ()) ↔
      ∃ u r, Transducer.Steps FormatStep ⟨list, .normal, none⟩ cs u r ∧
        t = u.map terminalLogWrite := by
  constructor
  · rintro ⟨ret, hrun⟩
    obtain ⟨o, hrun, -⟩ := (Printf.printf_runs_iff formatString hstr).mp hrun
    obtain ⟨-, l', p, -, -, hsteps⟩ := Printf.stateCase_implements.steps_of_foldSymbols
      hshared.accepts_print (Printf.reads_start list formatString) hrun
    obtain ⟨u, hformat, rfl⟩ := formatSteps_of_printSteps hsteps hshared
    exact ⟨u, p.reader, hformat, rfl⟩
  · rintro ⟨u, r, hsteps, rfl⟩
    obtain ⟨p, hprint, -⟩ := printSteps_of_formatSteps hsteps 0#64
    exact ⟨p.written, Printf.printf_runs_steps formatString hstr hprint⟩

/-- **`printf` and the logger agree** on every format string with the specifiers and
flags that both accept, whatever arguments there are: each of them returns if the
other one does, and the same characters are passed to `terminal_put_char`. Up to any
character, too, they have taken the same arguments. -/
theorem printf_agrees_with_logger (file logArray printArray : CharBuffer)
    (hstr : str.Holds cs) (hshared : UsesShared .normal cs) (list : List VaArg)
    (b : LoggingBackend) :
    (∀ t, (∃ u b', (logFormatedStr file logArray str list).Runs b u () b' ∧
        t = u.map terminalLogWrite) ↔
      ∃ ret, (Printf.printf printArray str list).Runs () t ret ()) ∧
    ∀ cs', cs' <+: cs → ∀ t rest,
      LoggerLeaves file logArray cs' list b t rest ↔ PrintfLeaves printArray cs' list t rest := by
  refine ⟨fun t => ?_, ?_⟩
  · rw [printf_runs_shared_iff printArray hstr hshared]
    constructor
    · rintro ⟨u, b', hrun, rfl⟩
      obtain ⟨-, r, hsteps⟩ := (logFormatedStr_runs_iff file logArray hstr hshared).mp hrun
      exact ⟨u, r, hsteps, rfl⟩
    · rintro ⟨u, r, hsteps, rfl⟩
      exact ⟨u, b, (logFormatedStr_runs_iff file logArray hstr hshared).mpr ⟨rfl, r, hsteps⟩,
        rfl⟩
  · rintro cs' ⟨ds, rfl⟩ t rest
    have hshared' := hshared.of_append
    rw [loggerLeaves_iff file logArray hshared', printfLeaves_iff printArray hshared']

/-- A number, with its flag and in base 16, which `printf` prints because the logger
does. -/
theorem printf_agrees_with_logger_number :
    ∃ ret, (Printf.printf (stringLiteral "") (stringLiteral "%+d=%x")
      [.int 42#32, .int 42#32]).Runs () ((charBytes "+42=2a").map .terminalPutChar) ret () := by
  let items : List FormatItem :=
    [.conversion [.plus] (.int1 42#32), .literal (charByte '=') (by decide),
      .conversion [] (.hex 42#32)]
  have hstr : (stringLiteral "%+d=%x").Holds (items.flatMap FormatItem.bytes) :=
    holds_stringLiteral (by decide) (by decide)
  have hlog := logFormatedStr_runs (b := ⟨.debug⟩) (stringLiteral "logging.c") (stringLiteral "")
    [] hstr
  obtain ⟨hagree, -⟩ := printf_agrees_with_logger (stringLiteral "logging.c") (stringLiteral "")
    (stringLiteral "") hstr (by decide) (items.flatMap FormatItem.args ++ []) ⟨.debug⟩
  exact (hagree _).mp ⟨_, _, hlog, by decide⟩

end Agreement
