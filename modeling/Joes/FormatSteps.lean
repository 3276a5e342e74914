import Joes.LoggingFormat
import Joes.Transducer

/-!
# Reading a format string

A format string is read a character at a time, with the arguments that are left, a
mode and the last flag. `FormatStep` is the transducer that says what the reading of
a character comes to: an argument is taken for a conversion, if it is of the type
that the conversion takes, and there is no step otherwise.

`UsesShared` is about the characters alone. It tells the format strings that have
no other specifiers and flags than those that both interpreters of format strings
accept. On these the loop of `log_formated_str` implements the transducer.
-/

/-- **The reading of a format string**: the arguments that are left, the mode and the
last flag. -/
structure FormatReader where
  list : List VaArg
  state : FmtState
  flag : Option FormatFlag

/-- **A step of the reading**, and what is written for it. -/
inductive FormatStep : FormatReader → BitVec 8 → List (BitVec 8) → FormatReader → Prop
  | literal {list : List VaArg} {flag : Option FormatFlag} {c : BitVec 8}
      (hc : c ≠ charByte '%') : FormatStep ⟨list, .normal, flag⟩ c [c] ⟨list, .normal, flag⟩
  | start {list : List VaArg} {flag : Option FormatFlag} :
      FormatStep ⟨list, .normal, flag⟩ (charByte '%') [] ⟨list, .format, none⟩
  | flag {list : List VaArg} {flag : Option FormatFlag} (f : FormatFlag) :
      FormatStep ⟨list, .format, flag⟩ f.byte [] ⟨list, .format, some f⟩
  | conversion {list : List VaArg} {flag : Option FormatFlag} (conv : Conversion) :
      FormatStep ⟨conv.args ++ list, .format, flag⟩ conv.byte (conv.written flag)
        ⟨list, .normal, flag⟩

/-! ## The characters of the grammar -/

/-- The specifiers whose argument is an `int` or an `unsigned int`. -/
def intSpecifiers : List (BitVec 8) :=
  [charByte 'd', charByte 'i', charByte 'o', charByte 'u', charByte 'x', charByte 'c']

/-- The specifiers that are shared. -/
def sharedSpecifiers : List (BitVec 8) :=
  intSpecifiers ++ [charByte 'p', charByte 's', charByte '%']

/-- The flags that are shared. -/
def sharedFlags : List (BitVec 8) := [charByte '+', charByte ' ']

/-- The mode after a character. -/
def FmtState.next : FmtState → BitVec 8 → FmtState
  | normal, c => if c = charByte '%' then format else normal
  | format, c => if c ∈ sharedFlags then format else normal

/-- **A format string uses only the specifiers and flags that are shared**, read from
a mode on. -/
def UsesShared : FmtState → List (BitVec 8) → Prop
  | _, [] => True
  | state, c :: cs =>
    (state = .format → c ∈ sharedSpecifiers ∨ c ∈ sharedFlags) ∧ UsesShared (state.next c) cs

instance decidableUsesShared :
    (state : FmtState) → (cs : List (BitVec 8)) → Decidable (UsesShared state cs)
  | _, [] => isTrue trivial
  | state, c :: cs =>
    have := decidableUsesShared (state.next c) cs
    inferInstanceAs (Decidable (_ ∧ _))

/-- The characters that are allowed where the reading is. -/
def FormatReader.Allows (r : FormatReader) (c : BitVec 8) : Prop :=
  r.state = .format → c ∈ sharedSpecifiers ∨ c ∈ sharedFlags

theorem mem_sharedFlags {c : BitVec 8} (h : c ∈ sharedFlags) : ∃ f : FormatFlag, f.byte = c := by
  rcases List.mem_cons.mp h with rfl | h
  · exact ⟨.plus, rfl⟩
  · obtain rfl := List.mem_singleton.mp h
    exact ⟨.space, rfl⟩

/-- The mode changes with the reading. -/
theorem FormatStep.state_eq {r r' : FormatReader} {c : BitVec 8} {t : List (BitVec 8)}
    (h : FormatStep r c t r') : r'.state = r.state.next c := by
  cases h with
  | literal hc => rw [FmtState.next, if_neg hc]
  | start => rfl
  | flag f => cases f <;> rfl
  | conversion conv => cases conv <;> rfl

/-- Where only what is shared is used, only what is allowed is met, by each transducer
that has a reading as a part of its state. -/
theorem UsesShared.accepts_of {ρ ε : Type} {T : Transducer ρ (BitVec 8) ε}
    (reader : ρ → FormatReader)
    (hnext : ∀ {p c t p'}, T p c t p' → (reader p').state = (reader p).state.next c)
    {cs : List (BitVec 8)} {p : ρ} (h : UsesShared (reader p).state cs) :
    T.Accepts (fun p => (reader p).Allows) p cs := by
  induction cs generalizing p with
  | nil => trivial
  | cons c cs ih =>
    refine ⟨h.1, fun t p' hstep => ih ?_⟩
    rw [hnext hstep]
    exact h.2

theorem UsesShared.accepts {cs : List (BitVec 8)} {r : FormatReader}
    (h : UsesShared r.state cs) : Transducer.Accepts FormatStep FormatReader.Allows r cs :=
  accepts_of id FormatStep.state_eq h

theorem mem_intSpecifiers {c : BitVec 8} (h : c ∈ intSpecifiers) (v : BitVec 32) :
    ∃ conv : Conversion, conv.byte = c ∧ conv.args = [.int v] := by
  simp only [intSpecifiers, List.mem_cons, List.not_mem_nil, or_false] at h
  rcases h with rfl | rfl | rfl | rfl | rfl | rfl
  · exact ⟨.int1 v, rfl, rfl⟩
  · exact ⟨.int2 v, rfl, rfl⟩
  · exact ⟨.octal v, rfl, rfl⟩
  · exact ⟨.uint v, rfl, rfl⟩
  · exact ⟨.hex v, rfl, rfl⟩
  · exact ⟨.char v, rfl, rfl⟩

/-- **A step for a specifier**, where the first argument is of its type. -/
theorem exists_conversion_step {c : BitVec 8} {list : List VaArg} (flag : Option FormatFlag)
    (hc : c ∈ sharedSpecifiers)
    (hint : c ∈ intSpecifiers → ∃ v list', list = .int v :: list')
    (hpointer : c = charByte 'p' → ∃ v list', list = .pointer v :: list')
    (hstring : c = charByte 's' → ∃ s len list', list = .string s :: list' ∧
      strlen s = some len) :
    ∃ t r, FormatStep ⟨list, .format, flag⟩ c t r := by
  rcases List.mem_append.mp hc with hc | hc
  · obtain ⟨v, list', rfl⟩ := hint hc
    obtain ⟨conv, rfl, hargs⟩ := mem_intSpecifiers hc v
    have hstep : FormatStep ⟨conv.args ++ list', .format, flag⟩ conv.byte _ _ := .conversion conv
    rw [hargs] at hstep
    exact ⟨_, _, hstep⟩
  · simp only [List.mem_cons, List.not_mem_nil, or_false] at hc
    rcases hc with rfl | rfl | rfl
    · obtain ⟨v, list', rfl⟩ := hpointer rfl
      exact ⟨_, _, .conversion (.pointer v)⟩
    · obtain ⟨s, len, list', rfl, hlen⟩ := hstring rfl
      obtain ⟨bytes, hholds⟩ := exists_holds_of_strlen hlen
      exact ⟨_, _, .conversion (.string ⟨s, bytes, hholds⟩)⟩
    · exact ⟨_, _, .conversion .specifier⟩

/-- A step in normal mode. -/
theorem exists_normal_step (list : List VaArg) (flag : Option FormatFlag) (c : BitVec 8) :
    ∃ t r, FormatStep ⟨list, .normal, flag⟩ c t r := by
  by_cases hc : c = charByte '%'
  · subst hc
    exact ⟨_, _, .start⟩
  · exact ⟨_, _, .literal hc⟩

/-! ## The logger -/

/-- The variables of `log_formated_str` are those of the reading. -/
structure FmtLocals.Reads (l : FmtLocals) (r : FormatReader) : Prop where
  list : l.list = r.list
  state : l.state = r.state
  posNumberPrefix : r.state = .format → l.posNumberPrefix = r.flag.elim noPrefix FormatFlag.byte

section Logger

variable {unknown : BitVec 8 → LogProgram Unit} {b b' : LoggingBackend} {t : List (BitVec 8)}
  {l : FmtLocals} {r r' : FormatReader} {c : BitVec 8} {list : List VaArg}

/-- **What the reading does** for a character the logger does. -/
theorem logFormatChar_runs_step (b : LoggingBackend) (hl : l.Reads r)
    (hstep : FormatStep r c t r') :
    ∃ l', (logFormatChar unknown l c).Runs b t (some l') b ∧ l'.Reads r' := by
  cases hstep with
  | literal hc =>
    refine ⟨l, ?_, hl⟩
    rw [logFormatChar_normal hl.state, if_neg hc]
    exact Traced.Runs.emit_seq (Traced.runs_pure.mpr ⟨rfl, rfl, rfl⟩)
  | start =>
    refine ⟨{ l with state := .format, posNumberPrefix := noPrefix }, ?_, hl.list, rfl,
      fun _ => rfl⟩
    rw [logFormatChar_normal hl.state, if_pos rfl]
    exact Traced.runs_pure.mpr ⟨rfl, rfl, rfl⟩
  | flag f =>
    refine ⟨{ l with posNumberPrefix := f.byte }, ?_, hl.list, hl.state, fun _ => rfl⟩
    rw [logFormatChar_format hl.state]
    cases f <;> exact Traced.runs_pure.mpr ⟨rfl, rfl, rfl⟩
  | conversion conv =>
    rw [logFormatChar_format hl.state]
    obtain ⟨l', hstate, hlist, hrun⟩ :=
      logFormatSpecifier_runs unknown conv hl.list (hl.posNumberPrefix rfl)
    refine ⟨l', hrun, hlist, hstate, fun h => ?_⟩
    cases h

theorem vaArgInt_taken {α : Type} {f : BitVec 32 × List VaArg → LogProgram α} {a : α}
    (h : (vaArgInt list >>= f).Runs b t a b') : ∃ v list', list = .int v :: list' := by
  cases list with
  | nil => cases h
  | cons arg list =>
    cases arg with
    | int v => exact ⟨v, list, rfl⟩
    | _ => cases h

theorem vaArgPointer_taken {α : Type} {f : BitVec 64 × List VaArg → LogProgram α} {a : α}
    (h : (vaArgPointer list >>= f).Runs b t a b') : ∃ v list', list = .pointer v :: list' := by
  cases list with
  | nil => cases h
  | cons arg list =>
    cases arg with
    | pointer v => exact ⟨v, list, rfl⟩
    | _ => cases h

theorem vaArgString_taken {α : Type} {f : CharBuffer × List VaArg → LogProgram α} {a : α}
    (h : (vaArgString list >>= f).Runs b t a b') :
    ∃ s list', list = .string s :: list' ∧ (f (s, list')).Runs b t a b' := by
  cases list with
  | nil => cases h
  | cons arg list =>
    cases arg with
    | string s =>
      obtain ⟨_, b₁, t₁, t₂, harg, hrun, rfl⟩ := h.bind
      obtain ⟨rfl, rfl, rfl⟩ := Traced.runs_pure.mp harg
      exact ⟨s, list, rfl, hrun⟩
    | _ => cases h

theorem logFormatSpecifier_int (unknown : BitVec 8 → LogProgram Unit) (l : FmtLocals)
    (hc : c ∈ intSpecifiers) : ∃ f, logFormatSpecifier unknown l c = vaArgInt l.list >>= f := by
  simp only [intSpecifiers, List.mem_cons, List.not_mem_nil, or_false] at hc
  rcases hc with rfl | rfl | rfl | rfl | rfl | rfl <;> exact ⟨_, rfl⟩

/-- **Where the logger returns** for a character the reading has a step. -/
theorem exists_step_of_logFormatChar {o : Option FmtLocals} (hl : l.Reads r) (hc : r.Allows c)
    (hrun : (logFormatChar unknown l c).Runs b t o b') : ∃ u r', FormatStep r c u r' := by
  obtain ⟨list, state, flag⟩ := r
  cases state with
  | normal => exact exists_normal_step list flag c
  | format =>
    rw [logFormatChar_format hl.state] at hrun
    obtain rfl : l.list = list := hl.list
    rcases hc rfl with hc | hc
    · refine exists_conversion_step flag hc (fun hc => ?_) ?_ ?_
      · obtain ⟨f, hf⟩ := logFormatSpecifier_int unknown l hc
        rw [hf] at hrun
        exact vaArgInt_taken hrun
      · rintro rfl
        exact vaArgPointer_taken hrun
      · rintro rfl
        obtain ⟨s, list', hlist, hrun⟩ := vaArgString_taken hrun
        obtain ⟨len, hlen, -⟩ := Traced.Runs.exists_of_option hrun
        exact ⟨s, len, list', hlist, hlen⟩
    · obtain ⟨f, rfl⟩ := mem_sharedFlags hc
      exact ⟨_, _, .flag f⟩

/-- **The logger implements the reading.** -/
theorem logFormatChar_implements :
    Traced.Implements (logFormatChar unknown) FormatStep FormatReader.Allows FmtLocals.Reads where
  runs b hl hstep := logFormatChar_runs_step b hl hstep
  step hl hc hrun := exists_step_of_logFormatChar hl hc hrun

/-- The loop of `log_formated_str` is one over the characters. -/
theorem logFormatChars_eq (cs : List (BitVec 8)) (l : FmtLocals) :
    logFormatChars unknown cs l =
      Traced.foldResult (logFormatChar unknown) (fun _ => ()) cs l := by
  induction cs generalizing l with
  | nil => rfl
  | cons c cs ih =>
    refine bind_congr fun next => ?_
    cases next with
    | none => rfl
    | some l => exact ih l

/-- **The logger reads a format string**, with what it takes of it as the run of a
transducer. -/
theorem logFormatedStr_runs_iff (file formatString : CharBuffer) {str : CharBuffer}
    {cs : List (BitVec 8)} (hstr : str.Holds cs) (hshared : UsesShared .normal cs) :
    (logFormatedStr file formatString str list).Runs b t () b' ↔
      b = b' ∧ ∃ r, Transducer.Steps FormatStep ⟨list, .normal, none⟩ cs t r := by
  have hreads : FmtLocals.Reads ⟨list, .normal, noPrefix, formatString⟩ ⟨list, .normal, none⟩ :=
    ⟨rfl, rfl, fun _ => rfl⟩
  have hruns : (logFormatedStr file formatString str list).Runs b t () b' ↔
      ∃ o, (Traced.foldSymbols (logFormatChar (logUnknownSpecifier file formatString)) cs
        ⟨list, .normal, noPrefix, formatString⟩).Runs b t o b' := by
    rw [logFormatedStr, logFormatedStrWith, strlen_eq hstr, Traced.runs_some_seq,
      hstr.toNat_length, logFormatedStrLoop_eq, hstr.chars_eq, logFormatChars_eq,
      Traced.runs_foldResult]
    exact exists_congr fun o => and_iff_left rfl
  rw [hruns]
  constructor
  · rintro ⟨o, hrun⟩
    obtain ⟨rfl, l', r, rfl, -, hsteps⟩ :=
      logFormatChar_implements.steps_of_foldSymbols hshared.accepts hreads hrun
    exact ⟨rfl, r, hsteps⟩
  · rintro ⟨rfl, r, hsteps⟩
    obtain ⟨l', hrun, -⟩ := logFormatChar_implements.foldSymbols_runs hsteps hreads b
    exact ⟨some l', hrun⟩

end Logger
