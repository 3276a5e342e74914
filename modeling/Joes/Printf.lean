import Joes.FormatSteps

/-!
# Printing with a format

`printf` goes over a format string like `log_formated_str`, and counts what it prints.
It passes characters to `terminal_put_char`, and for `%n` it stores its counter, so
the trace of a program here has these two kinds of calls. The `int` that is stored is
taken to be apart from the strings that `printf` reads.

The libc does not use the logger's code, and has a switch, characters and variables of
its own. So they are modelled on their own, down to the prefix of `%u`, which is printed
also where it is a 0, and to the `0x` of `%p`, which is not counted. What the two have
in common is not assumed here but proved where their steps are compared.

Arguments come with their types. A `va_arg` that asks for another type than the next
argument has, or for an argument behind the last one, has no defined result, and the
program has no run from there on (`vaArg`); a string without an end has none either,
since its length is not found. The array that numbers are converted in holds something
at the start, and what the last number has left there later. It is one of the variables
for this reason, and the results hold whatever it is.
-/

/-- What `printf` does: it passes a character to `terminal_put_char`, or stores an
`int` behind a pointer. -/
inductive PrintEvent where
  | terminalPutChar (c : BitVec 8)
  | store (pointer : BitVec 64) (value : BitVec 32)
  deriving DecidableEq, Repr

namespace Printf

/-- The programs of `printf`, which has no state of its own. -/
abbrev PrintProgram (α : Type) := Traced Unit PrintEvent α

/-- `terminal_put_char`. -/
def terminalPutChar (c : BitVec 8) : PrintProgram Unit := Traced.emit (.terminalPutChar c)

/-- The loop of `terminal_write_string`, with the iterations that are left. -/
def terminalWriteStringLoop (str : CharBuffer) : ℕ → BitVec 64 → PrintProgram Unit
  | 0, _ => pure ()
  | n + 1, i => do
    terminalPutChar (str i)
    terminalWriteStringLoop str n (i + 1#64)

/-- `terminal_write_string`. -/
def terminalWriteString (str : CharBuffer) (len : BitVec 64) : PrintProgram Unit :=
  terminalWriteStringLoop str len.toNat 0#64

/-! ## The format string -/

/-- `STATE_NORMAL` and `STATE_FORMAT`. -/
inductive State where
  | normal | format
  deriving DecidableEq, Repr

/-- `FORMAT_SPECIFIER`. -/
def formatSpecifier : BitVec 8 := charByte '%'

/-- `FORMAT_STRING`. -/
def formatString : BitVec 8 := charByte 's'

/-- `FORMAT_CHAR`. -/
def formatChar : BitVec 8 := charByte 'c'

/-- `FORMAT_INT1`. -/
def formatInt1 : BitVec 8 := charByte 'd'

/-- `FORMAT_INT2`. -/
def formatInt2 : BitVec 8 := charByte 'i'

/-- `FORMAT_UINT`. -/
def formatUint : BitVec 8 := charByte 'u'

/-- `FORMAT_OCTAL`. -/
def formatOctal : BitVec 8 := charByte 'o'

/-- `FORMAT_HEX`. -/
def formatHex : BitVec 8 := charByte 'x'

/-- `FORMAT_POINTER`. -/
def formatPointer : BitVec 8 := charByte 'p'

/-- `FORMAT_NO_OUTPUT`. -/
def formatNoOutput : BitVec 8 := charByte 'n'

/-- `FORMAT_PREFIX_PLUS`. -/
def formatPrefixPlus : BitVec 8 := charByte '+'

/-- `FORMAT_PREFIX_SPACE`. -/
def formatPrefixSpace : BitVec 8 := charByte ' '

/-- `NO_PREFIX`. -/
def noPrefix : BitVec 8 := 0#8

/-- The `int` of an argument, or its `unsigned int`. -/
def vaInt : VaArg → Option (BitVec 32)
  | .int v => some v
  | _ => none

/-- The pointer of an argument. -/
def vaPointer : VaArg → Option (BitVec 64)
  | .pointer v => some v
  | _ => none

/-- The `char *` of an argument. -/
def vaString : VaArg → Option CharBuffer
  | .string s => some s
  | _ => none

/-- `va_arg`, with the type that is asked for. -/
def vaArg {α : Type} (type : VaArg → Option α) : List VaArg → PrintProgram (α × List VaArg)
  | [] => Traced.diverge
  | arg :: list => do
    let v ← Traced.ofOption (type arg)
    pure (v, list)

/-- The variables of `printf` that are kept from one character to the next. -/
structure Locals where
  list : List VaArg
  written : BitVec 64
  state : State
  posNumberPrefix : BitVec 8
  formatString : CharBuffer

/-- Writes a converted number, after what is to come before it, and goes back to
normal mode. What comes before it says how much of it is counted. -/
def writeNumber (l : Locals) (list : List VaArg) (before : PrintProgram (BitVec 64))
    (converted : Option CharBuffer) : PrintProgram (Option Locals) := do
  let formatString ← Traced.ofOption converted
  let formatStringLen ← Traced.ofOption (strlen formatString)
  let counted ← before
  terminalWriteString formatString formatStringLen
  pure (some { l with
    list := list
    written := l.written + counted + formatStringLen
    state := .normal
    formatString := formatString })

/-- The cases of the signed specifiers. -/
def writeInt (l : Locals) : PrintProgram (Option Locals) := do
  let (formatNumber, list) ← vaArg vaInt l.list
  writeNumber l list
    (if l.posNumberPrefix ≠ 0#8 ∧ (0#32).sle formatNumber then do
      terminalPutChar l.posNumberPrefix
      pure 1#64
    else pure 0#64)
    (itoa (formatNumber.signExtend 64) l.formatString 10#32)

/-- The cases of the unsigned specifiers. -/
def writeUint (l : Locals) (before : PrintProgram (BitVec 64)) (base : BitVec 32) :
    PrintProgram (Option Locals) := do
  let (unsignedFormatNumber, list) ← vaArg vaInt l.list
  writeNumber l list before (utoa (unsignedFormatNumber.setWidth 64) l.formatString base)

/-- The switch on a character in format mode, and the variables it leaves, if it does
not return. -/
def formatCase (l : Locals) (c : BitVec 8) : PrintProgram (Option Locals) :=
  if c = formatChar then do
    let (v, list) ← vaArg vaInt l.list
    terminalPutChar (v.setWidth 8)
    pure (some { l with list := list, written := l.written + 1#64, state := .normal })
  else if c = formatString then do
    let (s, list) ← vaArg vaString l.list
    let sLen ← Traced.ofOption (strlen s)
    terminalWriteString s sLen
    pure (some { l with list := list, written := l.written + sLen, state := .normal })
  else if c = formatSpecifier then do
    terminalPutChar formatSpecifier
    pure (some { l with written := l.written + 1#64, state := .normal })
  else if c = formatInt1 ∨ c = formatInt2 then writeInt l
  else if c = formatUint then
    writeUint l
      (do
        terminalPutChar l.posNumberPrefix
        pure 1#64)
      10#32
  else if c = formatOctal then writeUint l (pure 0#64) 8#32
  else if c = formatHex then writeUint l (pure 0#64) 16#32
  else if c = formatPointer then do
    let (formatPointer, list) ← vaArg vaPointer l.list
    writeNumber l list
      (do
        terminalWriteString (stringLiteral "0x") 2#64
        pure 0#64)
      (utoa formatPointer l.formatString 16#32)
  else if c = formatNoOutput then do
    let (outputPointer, list) ← vaArg vaPointer l.list
    Traced.emit (.store outputPointer (l.written.setWidth 32))
    pure (some { l with list := list, state := .normal })
  else if c = formatPrefixPlus then
    pure (some { l with posNumberPrefix := formatPrefixPlus })
  else if c = formatPrefixSpace then
    pure (some { l with posNumberPrefix := formatPrefixSpace })
  else pure none

/-- The switch on the state. -/
def stateCase (l : Locals) (c : BitVec 8) : PrintProgram (Option Locals) :=
  match l.state with
  | .normal =>
    if c = formatSpecifier then
      pure (some { l with state := .format, posNumberPrefix := noPrefix })
    else do
      terminalPutChar c
      pure (some { l with written := l.written + 1#64 })
  | .format => formatCase l c

/-- The loop of `printf`, with the iterations that are left. -/
def printfLoop (str : CharBuffer) : ℕ → BitVec 64 → Locals → PrintProgram (BitVec 64)
  | 0, _, l => pure l.written
  | n + 1, i, l => do
    match ← stateCase l (str i) with
    | some l => printfLoop str n (i + 1#64) l
    | none => pure (-1#64)

/-- `printf`, given the content its array has. -/
def printf (formatString str : CharBuffer) (list : List VaArg) : PrintProgram (BitVec 64) := do
  let len ← Traced.ofOption (strlen str)
  printfLoop str len.toNat 0#64 ⟨list, 0#64, .normal, noPrefix, formatString⟩

end Printf
