import Joes.Libc
import Joes.TracedProgram

/-!
# Formatted logging

`log_formated_str` goes over a format string with a state and a flag, takes its
arguments one by one, and passes what it renders to the backend, byte by byte.
The trace of a program here is what it passes to the backend. An array that is
not initialised has any content, and to take an argument of another type than
the one that was passed has no meaning, like a loop that does not end.

`log_formated_str` reports an unknown specifier through `logging_log_msg`, which
calls it again. The format string of that message has no unknown specifier.
-/

/-- `logging_level_t`. -/
inductive LoggingLevel where
  | debug | info | warning | error
  deriving DecidableEq, Repr

/-- The value of a level, by which levels are compared. -/
def LoggingLevel.value : LoggingLevel → ℕ
  | debug => 0
  | info => 1
  | warning => 2
  | error => 3

/-- `struct logging_backend`, whose function is what emits the trace. -/
structure LoggingBackend where
  level : LoggingLevel

/-- The programs of the logging module. -/
abbrev LogProgram (α : Type) := Traced LoggingBackend (BitVec 8) α

/-- `backend.write`. -/
def backendWrite (c : BitVec 8) : LogProgram Unit := Traced.emit c

/-- The loop of `log_str`, with the iterations that are left. -/
def logStrLoop (str : CharBuffer) : ℕ → BitVec 64 → LogProgram Unit
  | 0, _ => pure ()
  | n + 1, i => do
    backendWrite (str i)
    logStrLoop str n (i + 1#64)

/-- `log_str`. -/
def logStr (str : CharBuffer) (len : BitVec 64) : LogProgram Unit := logStrLoop str len.toNat 0#64

/-- The characters of a string literal. -/
def stringLiteral (s : String) : CharBuffer := fun i => (s.toList.map charByte).getD i.toNat 0#8

/-! ## Arguments -/

/-- **A variadic argument**, as it is passed. -/
inductive VaArg where
  /-- An `int` or an `unsigned int`. -/
  | int (v : BitVec 32)
  /-- A `void *`. -/
  | pointer (v : BitVec 64)
  /-- A `char *`, with what it points to. -/
  | string (s : CharBuffer)

/-- `va_arg(list, int)` and `va_arg(list, unsigned int)`. -/
def vaArgInt : List VaArg → LogProgram (BitVec 32 × List VaArg)
  | .int v :: list => pure (v, list)
  | _ => Traced.diverge

/-- `va_arg(list, void *)`. -/
def vaArgPointer : List VaArg → LogProgram (BitVec 64 × List VaArg)
  | .pointer v :: list => pure (v, list)
  | _ => Traced.diverge

/-- `va_arg(list, char *)`. -/
def vaArgString : List VaArg → LogProgram (CharBuffer × List VaArg)
  | .string s :: list => pure (s, list)
  | _ => Traced.diverge

/-! ## The format string -/

/-- `fmt_state_t`. -/
inductive FmtState where
  | normal | format
  deriving DecidableEq, Repr

/-- `FMT_SPECIFIER_SPECIFIER`. -/
def fmtSpecifierSpecifier : BitVec 8 := charByte '%'

/-- `FMT_SPECIFIER_STRING`. -/
def fmtSpecifierString : BitVec 8 := charByte 's'

/-- `FMT_SPECIFIER_CHAR`. -/
def fmtSpecifierChar : BitVec 8 := charByte 'c'

/-- `FMT_SPECIFIER_INT1`. -/
def fmtSpecifierInt1 : BitVec 8 := charByte 'd'

/-- `FMT_SPECIFIER_INT2`. -/
def fmtSpecifierInt2 : BitVec 8 := charByte 'i'

/-- `FMT_SPECIFIER_UINT`. -/
def fmtSpecifierUint : BitVec 8 := charByte 'u'

/-- `FMT_SPECIFIER_OCTAL`. -/
def fmtSpecifierOctal : BitVec 8 := charByte 'o'

/-- `FMT_SPECIFIER_HEX`. -/
def fmtSpecifierHex : BitVec 8 := charByte 'x'

/-- `FMT_SPECIFIER_POINTER`. -/
def fmtSpecifierPointer : BitVec 8 := charByte 'p'

/-- `FMT_SPECIFIER_PREFIX_PLUS`. -/
def fmtSpecifierPrefixPlus : BitVec 8 := charByte '+'

/-- `FMT_SPECIFIER_PREFIX_SPACE`. -/
def fmtSpecifierPrefixSpace : BitVec 8 := charByte ' '

/-- `NO_PREFIX`. -/
def noPrefix : BitVec 8 := 0#8

/-- The variables of `log_formated_str` that are kept from one character to the
next. -/
structure FmtLocals where
  list : List VaArg
  state : FmtState
  posNumberPrefix : BitVec 8
  formatString : CharBuffer

/-- Writes a converted number, after what is to come before it, and goes back to
normal mode. -/
def logNumber (l : FmtLocals) (list : List VaArg) (before : LogProgram Unit)
    (converted : Option CharBuffer) : LogProgram (Option FmtLocals) := do
  let formatString ← Traced.ofOption converted
  let formatStringLen ← Traced.ofOption (strlen formatString)
  before
  logStr formatString formatStringLen
  pure (some { l with list := list, state := .normal, formatString := formatString })

/-- The cases of the signed specifiers. -/
def logInt (l : FmtLocals) : LogProgram (Option FmtLocals) := do
  let (formatNumber, list) ← vaArgInt l.list
  logNumber l list
    (Traced.when (l.posNumberPrefix ≠ 0#8 ∧ (0#32).sle formatNumber)
      (backendWrite l.posNumberPrefix))
    (itoa (formatNumber.signExtend 64) l.formatString 10#32)

/-- The cases of the unsigned specifiers. -/
def logUint (l : FmtLocals) (before : LogProgram Unit) (base : BitVec 32) :
    LogProgram (Option FmtLocals) := do
  let (unsignedFormatNumber, list) ← vaArgInt l.list
  logNumber l list before (utoa (unsignedFormatNumber.setWidth 64) l.formatString base)

/-- The switch on a character in format mode, and the state it leaves, if it does
not return. -/
def logFormatSpecifier (unknown : BitVec 8 → LogProgram Unit) (l : FmtLocals) (c : BitVec 8) :
    LogProgram (Option FmtLocals) :=
  if c = fmtSpecifierChar then do
    let (v, list) ← vaArgInt l.list
    backendWrite (v.setWidth 8)
    pure (some { l with list := list, state := .normal })
  else if c = fmtSpecifierString then do
    let (s, list) ← vaArgString l.list
    let sLen ← Traced.ofOption (strlen s)
    logStr s sLen
    pure (some { l with list := list, state := .normal })
  else if c = fmtSpecifierSpecifier then do
    backendWrite fmtSpecifierSpecifier
    pure (some { l with state := .normal })
  else if c = fmtSpecifierInt1 ∨ c = fmtSpecifierInt2 then logInt l
  else if c = fmtSpecifierUint then logUint l (backendWrite l.posNumberPrefix) 10#32
  else if c = fmtSpecifierOctal then logUint l (pure ()) 8#32
  else if c = fmtSpecifierHex then logUint l (pure ()) 16#32
  else if c = fmtSpecifierPointer then do
    let (formatPointer, list) ← vaArgPointer l.list
    logNumber l list
      (do
        backendWrite (charByte '0')
        backendWrite (charByte 'x'))
      (utoa formatPointer l.formatString 16#32)
  else if c = fmtSpecifierPrefixPlus then
    pure (some { l with posNumberPrefix := fmtSpecifierPrefixPlus })
  else if c = fmtSpecifierPrefixSpace then
    pure (some { l with posNumberPrefix := fmtSpecifierPrefixSpace })
  else do
    unknown c
    pure none

/-- The switch on the state. -/
def logFormatChar (unknown : BitVec 8 → LogProgram Unit) (l : FmtLocals) (c : BitVec 8) :
    LogProgram (Option FmtLocals) :=
  match l.state with
  | .normal =>
    if c = fmtSpecifierSpecifier then
      pure (some { l with state := .format, posNumberPrefix := noPrefix })
    else do
      backendWrite c
      pure (some l)
  | .format => logFormatSpecifier unknown l c

/-- The loop of `log_formated_str`, with the iterations that are left. -/
def logFormatedStrLoop (unknown : BitVec 8 → LogProgram Unit) (str : CharBuffer) :
    ℕ → BitVec 64 → FmtLocals → LogProgram Unit
  | 0, _, _ => pure ()
  | n + 1, i, l => do
    match ← logFormatChar unknown l (str i) with
    | some l => logFormatedStrLoop unknown str n (i + 1#64) l
    | none => pure ()

/-- `log_formated_str`, with what is done about an unknown specifier and the
content its array has. -/
def logFormatedStrWith (unknown : BitVec 8 → LogProgram Unit) (formatString : CharBuffer)
    (str : CharBuffer) (list : List VaArg) : LogProgram Unit := do
  let len ← Traced.ofOption (strlen str)
  logFormatedStrLoop unknown str len.toNat 0#64 ⟨list, .normal, noPrefix, formatString⟩

/-- `logging_log_msg`, with what it calls for `log_formated_str`. -/
def loggingLogMsgWith (logFormatedStr : CharBuffer → List VaArg → LogProgram Unit)
    (level : LoggingLevel) (file msg : CharBuffer) (list : List VaArg) : LogProgram Unit := do
  let backend ← Traced.gets id
  if level.value < backend.level.value then pure ()
  else
    match level with
    | .debug => logStr (stringLiteral "[DEBUG] ") 8#64
    | .info => logStr (stringLiteral "[INFO] ") 8#64
    | .warning => logStr (stringLiteral "[WARNING] ") 10#64
    | .error => logStr (stringLiteral "[ERROR] ") 8#64
    Traced.when (level ≠ .info) do
      let len ← Traced.ofOption (strlen file)
      logStr file len
      backendWrite (charByte ':')
      backendWrite (charByte ' ')
    logFormatedStr msg list
    backendWrite (charByte '\n')

/-- The report of an unknown specifier, given the name of the source file. -/
def logUnknownSpecifier (file formatString : CharBuffer) (c : BitVec 8) : LogProgram Unit :=
  loggingLogMsgWith (logFormatedStrWith (fun _ => Traced.diverge) formatString) .error file
    (stringLiteral "Unknown format specifier: %c") [.int (c.signExtend 32)]

/-- `log_formated_str`. -/
def logFormatedStr (file formatString : CharBuffer) (str : CharBuffer) (list : List VaArg) :
    LogProgram Unit :=
  logFormatedStrWith (logUnknownSpecifier file formatString) formatString str list

/-- `logging_log_msg`, given the name of the source file of this module. -/
def loggingLogMsg (loggingFile formatString : CharBuffer) (level : LoggingLevel)
    (file msg : CharBuffer) (list : List VaArg) : LogProgram Unit :=
  loggingLogMsgWith (logFormatedStr loggingFile formatString) level file msg list
