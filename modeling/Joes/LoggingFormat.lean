import Joes.Logging

/-!
# What formatted logging renders

A format string consists of characters and of conversions, which may have flags
before their specifier. A `FormatItem` is one of the two, together with the
argument a conversion takes, so a list of items gives a format string and the
arguments that match it, and it has a rendering.

`log_formated_str` passes exactly this rendering to the backend, except that it
writes the flag of `%u` also if there is none: as the byte 0
(`logFormatedStr_renders_iff`).
-/

/-- **A string** behind a pointer. -/
structure CString where
  chars : CharBuffer
  bytes : List (BitVec 8)
  holds : chars.Holds bytes

/-- The flags, which ask for a sign before a number that is not negative. -/
inductive FormatFlag where
  | plus | space
  deriving DecidableEq, Repr

/-- The character of a flag. -/
def FormatFlag.byte : FormatFlag → BitVec 8
  | plus => charByte '+'
  | space => charByte ' '

/-- **The conversions**, each with its argument. -/
inductive Conversion where
  /-- `%d`. -/
  | int1 (v : BitVec 32)
  /-- `%i`. -/
  | int2 (v : BitVec 32)
  /-- `%u`. -/
  | uint (v : BitVec 32)
  /-- `%o`. -/
  | octal (v : BitVec 32)
  /-- `%x`. -/
  | hex (v : BitVec 32)
  /-- `%p`. -/
  | pointer (v : BitVec 64)
  /-- `%c`. -/
  | char (v : BitVec 32)
  /-- `%s`. -/
  | string (s : CString)
  /-- `%%`. -/
  | specifier

namespace Conversion

/-- The character of a specifier. -/
def byte : Conversion → BitVec 8
  | int1 _ => charByte 'd'
  | int2 _ => charByte 'i'
  | uint _ => charByte 'u'
  | octal _ => charByte 'o'
  | hex _ => charByte 'x'
  | pointer _ => charByte 'p'
  | char _ => charByte 'c'
  | string _ => charByte 's'
  | specifier => charByte '%'

/-- The argument of a conversion, if it takes one. -/
def args : Conversion → List VaArg
  | int1 v | int2 v | uint v | octal v | hex v | char v => [.int v]
  | pointer v => [.pointer v]
  | string s => [.string s.chars]
  | specifier => []

/-- **The rendering of a conversion**, given the last one of its flags. -/
def rendering (flag : Option FormatFlag) : Conversion → List (BitVec 8)
  | int1 v | int2 v =>
    (if v.toInt < 0 then [charByte '-'] else flag.toList.map FormatFlag.byte) ++
      numeral 10 v.toInt.natAbs
  | uint v => flag.toList.map FormatFlag.byte ++ numeral 10 v.toNat
  | octal v => numeral 8 v.toNat
  | hex v => numeral 16 v.toNat
  | pointer v => charByte '0' :: charByte 'x' :: numeral 16 v.toNat
  | char v => [v.setWidth 8]
  | string s => s.bytes
  | specifier => [charByte '%']

/-- What the code makes of a conversion: it writes the flag of `%u`, or the byte
that stands for none. -/
def written (flag : Option FormatFlag) : Conversion → List (BitVec 8)
  | uint v => flag.elim noPrefix FormatFlag.byte :: numeral 10 v.toNat
  | conv => conv.rendering flag

end Conversion

/-- **The items of a format string.** -/
inductive FormatItem where
  | literal (c : BitVec 8) (h : c ≠ charByte '%')
  | conversion (flags : List FormatFlag) (conv : Conversion)

namespace FormatItem

/-- The characters of an item. -/
def bytes : FormatItem → List (BitVec 8)
  | literal c _ => [c]
  | conversion flags conv => charByte '%' :: (flags.map FormatFlag.byte ++ [conv.byte])

/-- The arguments of an item. -/
def args : FormatItem → List VaArg
  | literal _ _ => []
  | conversion _ conv => conv.args

/-- **The rendering of an item.** -/
def rendering : FormatItem → List (BitVec 8)
  | literal c _ => [c]
  | conversion flags conv => conv.rendering flags.getLast?

/-- What the code makes of an item. -/
def written : FormatItem → List (BitVec 8)
  | literal c _ => [c]
  | conversion flags conv => conv.written flags.getLast?

/-- An item is `%u` with no flag. -/
def IsFlaglessUint : FormatItem → Prop
  | conversion flags (.uint _) => flags = []
  | _ => False

end FormatItem

/-! ## Strings and numbers -/

section Logging

variable {unknown : BitVec 8 → LogProgram Unit} {b b' : LoggingBackend} {t : List (BitVec 8)}
  {l : FmtLocals}

theorem logStrLoop_runs (str : CharBuffer) (n : ℕ) (i : BitVec 64) :
    (logStrLoop str n i).Runs b (str.chars n i) () b := by
  induction n generalizing i with
  | zero => exact Traced.runs_pure.mpr ⟨rfl, rfl, rfl⟩
  | succ n ih => exact Traced.Runs.emit_seq (ih _)

/-- **A string** is written as it is. -/
theorem logStr_runs {str : CharBuffer} {s : List (BitVec 8)} (h : str.Holds s) :
    (logStr str (BitVec.ofNat 64 s.length)).Runs b s () b := by
  have hrun := logStrLoop_runs (b := b) str s.length 0#64
  rw [h.chars_eq] at hrun
  rwa [logStr, h.toNat_length]

theorem vaArgInt_runs {list list' : List VaArg} {v : BitVec 32} (h : list' = .int v :: list) :
    (vaArgInt list').Runs b [] (v, list) b := by
  subst h
  exact Traced.runs_pure.mpr ⟨rfl, rfl, rfl⟩

theorem vaArgPointer_runs {list list' : List VaArg} {v : BitVec 64}
    (h : list' = .pointer v :: list) : (vaArgPointer list').Runs b [] (v, list) b := by
  subst h
  exact Traced.runs_pure.mpr ⟨rfl, rfl, rfl⟩

theorem vaArgString_runs {list list' : List VaArg} {s : CharBuffer}
    (h : list' = .string s :: list) : (vaArgString list').Runs b [] (s, list) b := by
  subst h
  exact Traced.runs_pure.mpr ⟨rfl, rfl, rfl⟩

/-- **A number** is written after what comes before it. -/
theorem logNumber_runs {list : List VaArg} {before : LogProgram Unit} {s : List (BitVec 8)}
    {converted : Option CharBuffer} (hbefore : before.Runs b t () b)
    (hconverted : ∃ str, converted = some str ∧ str.Holds s) :
    ∃ l', l'.state = .normal ∧ l'.list = list ∧
      (logNumber l list before converted).Runs b (t ++ s) (some l') b := by
  obtain ⟨str, rfl, hstr⟩ := hconverted
  refine ⟨{ l with list := list, state := .normal, formatString := str }, rfl, rfl, ?_⟩
  refine Traced.Runs.pure_seq ?_
  rw [strlen_eq hstr]
  exact Traced.Runs.pure_seq (hbefore.seq (logStr_runs hstr).seq_pure)

/-- The flag that is written before a signed number. -/
theorem logFlag_runs {v : BitVec 32} {flag : Option FormatFlag} {prefixByte : BitVec 8}
    (h : prefixByte = flag.elim noPrefix FormatFlag.byte) :
    (Traced.when (prefixByte ≠ 0#8 ∧ (0#32).sle v) (backendWrite prefixByte)).Runs b
      (if v.toInt < 0 then [] else flag.toList.map FormatFlag.byte) () b := by
  have hsle : (0#32).sle v = true ↔ ¬ v.toInt < 0 := by
    rw [BitVec.sle_iff_toInt_le, Int.not_lt]
    rfl
  subst h
  by_cases hneg : v.toInt < 0
  · rw [Traced.when, if_neg fun h => hsle.mp h.2 hneg, if_pos hneg]
    exact Traced.runs_pure.mpr ⟨rfl, rfl, rfl⟩
  · rw [if_neg hneg]
    cases flag with
    | none =>
      rw [Traced.when, if_neg fun h => h.1 rfl]
      exact Traced.runs_pure.mpr ⟨rfl, rfl, rfl⟩
    | some flag =>
      have hne : flag.byte ≠ 0#8 := by cases flag <;> decide
      rw [Traced.when, if_pos ⟨hne, hsle.mpr hneg⟩]
      exact Traced.runs_emit.mpr ⟨rfl, rfl⟩

/-- **A signed number** is written with a sign or with its flag. -/
theorem logInt_runs {list : List VaArg} {v : BitVec 32} {flag : Option FormatFlag}
    (hlist : l.list = .int v :: list)
    (hflag : l.posNumberPrefix = flag.elim noPrefix FormatFlag.byte) :
    ∃ l', l'.state = .normal ∧ l'.list = list ∧
      (logInt l).Runs b ((Conversion.int1 v).rendering flag) (some l') b := by
  have hconverted : ∃ str, itoa (v.signExtend 64) l.formatString 10#32 = some str ∧
      str.Holds (signedNumeral 10 v.toInt) := by
    rw [← BitVec.toInt_signExtend_of_le (show 32 ≤ 64 by decide)]
    exact itoa_holds (by decide) (by decide) _ _
  have hrendering : (Conversion.int1 v).rendering flag =
      (if v.toInt < 0 then [] else flag.toList.map FormatFlag.byte) ++
        signedNumeral 10 v.toInt := by
    rw [Conversion.rendering, signedNumeral]
    split <;> rfl
  obtain ⟨l', hstate, hlist', hrun⟩ := logNumber_runs (logFlag_runs hflag) hconverted
  refine ⟨l', hstate, hlist', ?_⟩
  rw [hrendering]
  exact (vaArgInt_runs hlist).seq hrun

/-- **An unsigned number** is written after what comes before it. -/
theorem logUint_runs {list : List VaArg} {v : BitVec 32} {before : LogProgram Unit}
    {base : BitVec 32} (hbase : 2 ≤ base.toNat) (hbase' : base.toNat ≤ 36)
    (hlist : l.list = .int v :: list) (hbefore : before.Runs b t () b) :
    ∃ l', l'.state = .normal ∧ l'.list = list ∧
      (logUint l before base).Runs b (t ++ numeral base.toNat v.toNat) (some l') b := by
  have hconverted := utoa_holds hbase hbase' (v.setWidth 64) l.formatString
  rw [BitVec.toNat_setWidth_of_le (by decide)] at hconverted
  obtain ⟨l', hstate, hlist', hrun⟩ := logNumber_runs hbefore hconverted
  exact ⟨l', hstate, hlist', (vaArgInt_runs hlist).seq hrun⟩

/-- **A specifier** leads back to normal mode, with its argument taken and its
conversion written. -/
theorem logFormatSpecifier_runs (unknown : BitVec 8 → LogProgram Unit) {list : List VaArg}
    {flag : Option FormatFlag} (conv : Conversion)
    (hlist : l.list = conv.args ++ list)
    (hflag : l.posNumberPrefix = flag.elim noPrefix FormatFlag.byte) :
    ∃ l', l'.state = .normal ∧ l'.list = list ∧
      (logFormatSpecifier unknown l conv.byte).Runs b (conv.written flag) (some l') b := by
  have hpure : ∀ {α : Type} {a : α}, (pure a : LogProgram α).Runs b [] a b :=
    Traced.runs_pure.mpr ⟨rfl, rfl, rfl⟩
  cases conv with
  | int1 v => exact logInt_runs hlist hflag
  | int2 v => exact logInt_runs hlist hflag
  | uint v =>
    rw [Conversion.written, ← hflag]
    exact logUint_runs (by decide) (by decide) hlist (Traced.runs_emit.mpr ⟨rfl, rfl⟩)
  | octal v => exact logUint_runs (by decide) (by decide) hlist hpure
  | hex v => exact logUint_runs (by decide) (by decide) hlist hpure
  | pointer v =>
    have hbefore : (do
        backendWrite (charByte '0')
        backendWrite (charByte 'x') : LogProgram Unit).Runs b [charByte '0', charByte 'x'] () b :=
      Traced.Runs.emit_seq (Traced.runs_emit.mpr ⟨rfl, rfl⟩)
    have hconverted : ∃ str, utoa v l.formatString 16#32 = some str ∧
      str.Holds (numeral 16 v.toNat) := utoa_holds (by decide) (by decide) v l.formatString
    obtain ⟨l', hstate, hlist', hrun⟩ := logNumber_runs hbefore hconverted
    exact ⟨l', hstate, hlist', (vaArgPointer_runs hlist).seq hrun⟩
  | char v =>
    refine ⟨{ l with list := list, state := .normal }, rfl, rfl, ?_⟩
    exact (vaArgInt_runs hlist).seq (Traced.Runs.emit_seq hpure)
  | string s =>
    refine ⟨{ l with list := list, state := .normal }, rfl, rfl, ?_⟩
    refine (vaArgString_runs hlist).seq ?_
    dsimp only
    rw [strlen_eq s.holds]
    exact Traced.Runs.pure_seq (logStr_runs s.holds).seq_pure
  | specifier => exact ⟨{ l with state := .normal }, rfl, hlist, Traced.Runs.emit_seq hpure⟩

/-! ## The format string -/

/-- The loop of `log_formated_str`, over the characters it reads. -/
def logFormatChars (unknown : BitVec 8 → LogProgram Unit) :
    List (BitVec 8) → FmtLocals → LogProgram Unit
  | [], _ => pure ()
  | c :: cs, l => do
    match ← logFormatChar unknown l c with
    | some l => logFormatChars unknown cs l
    | none => pure ()

theorem logFormatedStrLoop_eq (str : CharBuffer) (n : ℕ) (i : BitVec 64) (l : FmtLocals) :
    logFormatedStrLoop unknown str n i l = logFormatChars unknown (str.chars n i) l := by
  induction n generalizing i l with
  | zero => rfl
  | succ n ih =>
    rw [logFormatedStrLoop, CharBuffer.chars, logFormatChars]
    refine bind_congr fun next => ?_
    cases next with
    | none => rfl
    | some l => exact ih _ l

variable {cs : List (BitVec 8)}

/-- A character, and then the others. -/
theorem logFormatChars_cons {c : BitVec 8} {l' : FmtLocals} {t₁ t₂ : List (BitVec 8)}
    (h : (logFormatChar unknown l c).Runs b t₁ (some l') b)
    (h' : (logFormatChars unknown cs l').Runs b t₂ () b') :
    (logFormatChars unknown (c :: cs) l).Runs b (t₁ ++ t₂) () b' := h.seq h'

theorem logFormatChar_normal (h : l.state = .normal) (c : BitVec 8) :
    logFormatChar unknown l c =
      if c = charByte '%' then
        pure (some { l with state := .format, posNumberPrefix := noPrefix })
      else backendWrite c >>= fun _ => pure (some l) := by
  unfold logFormatChar
  split
  · rfl
  · next hformat => cases h.symm.trans hformat

theorem logFormatChar_format (h : l.state = .format) (c : BitVec 8) :
    logFormatChar unknown l c = logFormatSpecifier unknown l c := by
  unfold logFormatChar
  split
  · next hnormal => cases h.symm.trans hnormal
  · rfl

/-- The last flag counts. -/
theorem logFormatChars_flags (flags : List FormatFlag) (flag : Option FormatFlag)
    (hstate : l.state = .format)
    (hflag : l.posNumberPrefix = flag.elim noPrefix FormatFlag.byte)
    (h : ∀ l', l'.state = .format → l'.list = l.list →
      l'.posNumberPrefix = (flags.getLast?.or flag).elim noPrefix FormatFlag.byte →
      (logFormatChars unknown cs l').Runs b t () b') :
    (logFormatChars unknown (flags.map FormatFlag.byte ++ cs) l).Runs b t () b' := by
  induction flags generalizing l flag with
  | nil => exact h l hstate rfl hflag
  | cons f flags ih =>
    have hstep : (logFormatChar unknown l f.byte).Runs b []
        (some { l with posNumberPrefix := f.byte }) b := by
      rw [logFormatChar_format hstate]
      cases f <;> exact Traced.runs_pure.mpr ⟨rfl, rfl, rfl⟩
    refine logFormatChars_cons hstep (ih (some f) hstate rfl fun l' hstate' hlist' hflag' =>
      h l' hstate' hlist' ?_)
    rw [hflag', List.getLast?_cons]
    cases flags.getLast? <;> rfl

/-- **An item** of the format string. -/
theorem logFormatChars_item (item : FormatItem) {list : List VaArg} (hstate : l.state = .normal)
    (hlist : l.list = item.args ++ list)
    (h : ∀ l', l'.state = .normal → l'.list = list →
      (logFormatChars unknown cs l').Runs b t () b') :
    (logFormatChars unknown (item.bytes ++ cs) l).Runs b (item.written ++ t) () b' := by
  cases item with
  | literal c hc =>
    have hstep : (logFormatChar unknown l c).Runs b [c] (some l) b := by
      rw [logFormatChar_normal hstate, if_neg hc]
      exact Traced.Runs.emit_seq (Traced.runs_pure.mpr ⟨rfl, rfl, rfl⟩)
    exact logFormatChars_cons hstep (h l hstate hlist)
  | conversion flags conv =>
    have hstep : (logFormatChar unknown l (charByte '%')).Runs b []
        (some { l with state := .format, posNumberPrefix := noPrefix }) b := by
      rw [logFormatChar_normal hstate, if_pos rfl]
      exact Traced.runs_pure.mpr ⟨rfl, rfl, rfl⟩
    have hrest : (logFormatChars unknown (flags.map FormatFlag.byte ++ (conv.byte :: cs))
        { l with state := .format, posNumberPrefix := noPrefix }).Runs b
          (conv.written flags.getLast? ++ t) () b' := by
      refine logFormatChars_flags flags none rfl rfl fun l' hstate' hlist' hflag' => ?_
      rw [Option.or_none] at hflag'
      obtain ⟨l'', hstate'', hlist'', hrun⟩ :=
        logFormatSpecifier_runs (b := b) unknown conv (hlist'.trans hlist) hflag'
      rw [← logFormatChar_format hstate'] at hrun
      exact logFormatChars_cons hrun (h l'' hstate'' hlist'')
    have hrun := logFormatChars_cons hstep hrest
    rw [FormatItem.bytes, List.cons_append, List.append_assoc]
    exact hrun

/-- **The items**, one after the other. -/
theorem logFormatChars_items (items : List FormatItem) {list : List VaArg}
    (hstate : l.state = .normal) (hlist : l.list = items.flatMap FormatItem.args ++ list) :
    (logFormatChars unknown (items.flatMap FormatItem.bytes) l).Runs b
      (items.flatMap FormatItem.written) () b := by
  induction items generalizing l with
  | nil => exact Traced.runs_pure.mpr ⟨rfl, rfl, rfl⟩
  | cons item items ih =>
    rw [List.flatMap_cons, List.append_assoc] at hlist
    exact logFormatChars_item item hstate hlist fun l' hstate' hlist' => ih hstate' hlist'

/-- **Formatted logging** writes what the items of the format string come to. -/
theorem logFormatedStr_runs (file formatString : CharBuffer) {str : CharBuffer}
    {items : List FormatItem} (list : List VaArg)
    (hstr : str.Holds (items.flatMap FormatItem.bytes)) :
    (logFormatedStr file formatString str (items.flatMap FormatItem.args ++ list)).Runs b
      (items.flatMap FormatItem.written) () b := by
  rw [logFormatedStr, logFormatedStrWith, strlen_eq hstr]
  refine Traced.Runs.pure_seq ?_
  rw [hstr.toNat_length, logFormatedStrLoop_eq, hstr.chars_eq]
  exact logFormatChars_items items rfl rfl

/-! ## The rendering -/

/-- What is written is the rendering, but for a flag that is not there. -/
theorem FormatItem.written_eq_iff (item : FormatItem) :
    item.written = item.rendering ↔ ¬ item.IsFlaglessUint := by
  cases item with
  | literal c hc => exact iff_of_true rfl id
  | conversion flags conv =>
    cases conv with
    | uint v =>
      cases flags with
      | nil =>
        exact iff_of_false (fun h => Nat.succ_ne_self _ (congrArg List.length h)) fun h => h rfl
      | cons f flags =>
        refine iff_of_true ?_ (List.cons_ne_nil f flags)
        rw [written, rendering, List.getLast?_cons]
        rfl
    | _ => exact iff_of_true rfl id

/-- Nothing of the rendering is left out. -/
theorem FormatItem.length_rendering_le (item : FormatItem) :
    item.rendering.length ≤ item.written.length := by
  by_cases h : item.IsFlaglessUint
  · cases item with
    | literal c hc => exact h.elim
    | conversion flags conv =>
      cases conv with
      | uint v =>
        obtain rfl : flags = [] := h
        exact Nat.le_succ _
      | _ => exact h.elim
  · rw [item.written_eq_iff.mpr h]

/-- All that is written is the rendering if nothing else is. -/
theorem flatMap_written_eq_iff (items : List FormatItem) :
    items.flatMap FormatItem.written = items.flatMap FormatItem.rendering ↔
      ∀ item ∈ items, ¬ item.IsFlaglessUint := by
  have hle : ∀ items : List FormatItem, (items.flatMap FormatItem.rendering).length ≤
      (items.flatMap FormatItem.written).length := by
    intro items
    induction items with
    | nil => exact le_rfl
    | cons item items ih =>
      rw [List.flatMap_cons, List.flatMap_cons, List.length_append, List.length_append]
      exact Nat.add_le_add item.length_rendering_le ih
  induction items with
  | nil => exact iff_of_true rfl (List.forall_mem_nil _)
  | cons item items ih =>
    rw [List.forall_mem_cons, List.flatMap_cons, List.flatMap_cons]
    refine Iff.trans ?_ (and_congr item.written_eq_iff ih)
    constructor
    · intro h
      have hlength := congrArg List.length h
      rw [List.length_append, List.length_append] at hlength
      have hitem := item.length_rendering_le
      have hitems := hle items
      exact List.append_inj h (by omega)
    · rintro ⟨hitem, hitems⟩
      rw [hitem, hitems]

/-- **Formatted logging renders its grammar**, and nothing else, if and only if no
`%u` of the format string is without a flag. The call returns, whatever its array
contains and whatever further arguments there are. -/
theorem logFormatedStr_renders_iff (file formatString : CharBuffer) {str : CharBuffer}
    {items : List FormatItem} (list : List VaArg) (b : LoggingBackend)
    (hstr : str.Holds (items.flatMap FormatItem.bytes)) :
    ∃ t, (logFormatedStr file formatString str (items.flatMap FormatItem.args ++ list)).Runs b
        t () b ∧
      (t = items.flatMap FormatItem.rendering ↔ ∀ item ∈ items, ¬ item.IsFlaglessUint) :=
  ⟨_, logFormatedStr_runs file formatString list hstr, flatMap_written_eq_iff items⟩

end Logging

/-- A string literal holds its characters. -/
theorem holds_stringLiteral {s : String} (hs : s.toList.length < 2 ^ 64)
    (hzero : 0#8 ∉ s.toList.map charByte) : (stringLiteral s).Holds (s.toList.map charByte) where
  length_lt := by rwa [List.length_map]
  zero_notMem := hzero
  read k hk := by
    rw [List.length_map] at hk
    rw [stringLiteral, BitVec.toNat_ofNat, Nat.mod_eq_of_lt (by omega)]

/-! ## Messages -/

/-- Characters of a format string without a conversion. -/
def literalItems (s : List (BitVec 8)) (h : ∀ c ∈ s, c ≠ charByte '%') : List FormatItem :=
  s.pmap FormatItem.literal h

@[simp] theorem flatMap_bytes_literalItems {s : List (BitVec 8)}
    (h : ∀ c ∈ s, c ≠ charByte '%') : (literalItems s h).flatMap FormatItem.bytes = s := by
  induction s with
  | nil => rfl
  | cons c s ih => exact congrArg (c :: ·) (ih fun d hd => h d (List.mem_cons_of_mem c hd))

@[simp] theorem flatMap_args_literalItems {s : List (BitVec 8)}
    (h : ∀ c ∈ s, c ≠ charByte '%') : (literalItems s h).flatMap FormatItem.args = [] := by
  induction s with
  | nil => rfl
  | cons c s ih => exact ih fun d hd => h d (List.mem_cons_of_mem c hd)

@[simp] theorem flatMap_written_literalItems {s : List (BitVec 8)}
    (h : ∀ c ∈ s, c ≠ charByte '%') : (literalItems s h).flatMap FormatItem.written = s := by
  induction s with
  | nil => rfl
  | cons c s ih => exact congrArg (c :: ·) (ih fun d hd => h d (List.mem_cons_of_mem c hd))

/-- The tag of an informational message, with the 0 that ends its literal. -/
def infoTag : List (BitVec 8) := charBytes "[INFO] " ++ [0#8]

/-- **An informational message** is written between its tag and a newline, with
no name of a file. -/
theorem loggingLogMsg_info_runs (loggingFile formatString file : CharBuffer)
    {b : LoggingBackend} (hlevel : b.level.value ≤ LoggingLevel.info.value) {msg : CharBuffer}
    {items : List FormatItem} (list : List VaArg)
    (hmsg : msg.Holds (items.flatMap FormatItem.bytes)) :
    (loggingLogMsg loggingFile formatString .info file msg
        (items.flatMap FormatItem.args ++ list)).Runs b
      (infoTag ++ (items.flatMap FormatItem.written ++ [charByte '\n'])) () b := by
  have htag : (logStr (stringLiteral "[INFO] ") 8#64).Runs b infoTag () b :=
    logStrLoop_runs (stringLiteral "[INFO] ") 8 0#64
  have hread : (Traced.gets id : LogProgram LoggingBackend).Runs b [] b b :=
    Traced.runs_gets.mpr ⟨rfl, rfl, rfl⟩
  refine hread.seq ?_
  rw [if_neg (Nat.not_lt.mpr hlevel)]
  refine htag.seq (Traced.Runs.pure_seq ?_)
  exact (logFormatedStr_runs loggingFile formatString list hmsg).seq
    (Traced.runs_emit.mpr ⟨rfl, rfl⟩)

/-- The tag of a level, as it is written. -/
def LoggingLevel.tag : LoggingLevel → List (BitVec 8)
  | debug => charBytes "[DEBUG] "
  | info => infoTag
  | warning => charBytes "[WARNING] "
  | error => charBytes "[ERROR] "

/-- **The line of a message**, where the backend takes messages of its level: the tag,
the name of the file but for an informational message, and the text. -/
def LoggingBackend.line (b : LoggingBackend) (level : LoggingLevel) (file : CString)
    (text : List (BitVec 8)) : List (BitVec 8) :=
  if level.value < b.level.value then []
  else
    level.tag ++ ((if level = .info then [] else file.bytes ++ charBytes ": ") ++
      (text ++ [charByte '\n']))

/-- The name of the file, before the text of a message. -/
theorem logFileName_runs (file : CString) (b : LoggingBackend) :
    (do
      let len ← Traced.ofOption (strlen file.chars)
      logStr file.chars len
      backendWrite (charByte ':')
      backendWrite (charByte ' ') : LogProgram Unit).Runs b (file.bytes ++ charBytes ": ") ()
        b := by
  rw [strlen_eq file.holds]
  refine Traced.Runs.some_seq ((logStr_runs file.holds).seq ?_)
  exact (Traced.runs_emit.mpr ⟨rfl, rfl⟩ : (backendWrite (charByte ':')).Runs b _ () b).seq
    (Traced.runs_emit.mpr ⟨rfl, rfl⟩)

/-- **A message** of any level writes its line. -/
theorem loggingLogMsg_runs (loggingFile formatString : CharBuffer) (file : CString)
    (b : LoggingBackend) (level : LoggingLevel) {msg : CharBuffer} {items : List FormatItem}
    (list : List VaArg) (hmsg : msg.Holds (items.flatMap FormatItem.bytes)) :
    (loggingLogMsg loggingFile formatString level file.chars msg
        (items.flatMap FormatItem.args ++ list)).Runs b
      (b.line level file (items.flatMap FormatItem.written)) () b := by
  have htext : (do
      logFormatedStr loggingFile formatString msg (items.flatMap FormatItem.args ++ list)
      backendWrite (charByte '\n')).Runs b
        (items.flatMap FormatItem.written ++ [charByte '\n']) () b :=
    (logFormatedStr_runs loggingFile formatString list hmsg).seq (Traced.runs_emit.mpr ⟨rfl, rfl⟩)
  have hrest : (do
      Traced.when (level ≠ LoggingLevel.info) do
        let len ← Traced.ofOption (strlen file.chars)
        logStr file.chars len
        backendWrite (charByte ':')
        backendWrite (charByte ' ')
      logFormatedStr loggingFile formatString msg (items.flatMap FormatItem.args ++ list)
      backendWrite (charByte '\n')).Runs b
        ((if level = LoggingLevel.info then [] else file.bytes ++ charBytes ": ") ++
          (items.flatMap FormatItem.written ++ [charByte '\n'])) () b := by
    unfold Traced.when
    by_cases hinfo : level = LoggingLevel.info
    · rw [if_neg (not_not.mpr hinfo), if_pos hinfo]
      exact Traced.Runs.pure_seq htext
    · rw [if_pos hinfo, if_neg hinfo]
      exact (logFileName_runs file b).seq htext
  rw [LoggingBackend.line]
  by_cases hlevel : level.value < b.level.value
  · rw [if_pos hlevel]
    refine Traced.Runs.gets_seq ?_
    rw [id, if_pos hlevel]
    exact Traced.runs_pure.mpr ⟨rfl, rfl, rfl⟩
  · rw [if_neg hlevel]
    refine Traced.Runs.gets_seq ?_
    rw [id, if_neg hlevel]
    -- One case for each tag, with its length as the code has it.
    cases level with
    | debug => exact (logStrLoop_runs (stringLiteral "[DEBUG] ") 8 0#64).seq hrest
    | info => exact (logStrLoop_runs (stringLiteral "[INFO] ") 8 0#64).seq hrest
    | warning => exact (logStrLoop_runs (stringLiteral "[WARNING] ") 10 0#64).seq hrest
    | error => exact (logStrLoop_runs (stringLiteral "[ERROR] ") 8 0#64).seq hrest

/-! ## Two messages -/

/-- A message with a number and its flag. -/
theorem logFormatedStr_renders_iff_flag :
    ∃ t, (logFormatedStr (stringLiteral "logging.c") (stringLiteral "") (stringLiteral "n = %+u")
        [.int 42#32]).Runs ⟨.debug⟩ t () ⟨.debug⟩ ∧
      t = "n = +42".toList.map charByte := by
  let items : List FormatItem :=
    [.literal (charByte 'n') (by decide), .literal (charByte ' ') (by decide),
      .literal (charByte '=') (by decide), .literal (charByte ' ') (by decide),
      .conversion [.plus] (.uint 42#32)]
  have hstr : (stringLiteral "n = %+u").Holds (items.flatMap FormatItem.bytes) :=
    holds_stringLiteral (by decide) (by decide)
  obtain ⟨t, hrun, hiff⟩ := logFormatedStr_renders_iff (stringLiteral "logging.c")
    (stringLiteral "") [] ⟨.debug⟩ hstr
  refine ⟨t, hrun, (hiff.mpr (by simp [items, FormatItem.IsFlaglessUint])).trans (by decide)⟩

/-- A number with no flag comes with a byte that is no part of it. -/
theorem logFormatedStr_flagless :
    ¬ ∀ t, (logFormatedStr (stringLiteral "logging.c") (stringLiteral "") (stringLiteral "%u")
        [.int 7#32]).Runs ⟨.debug⟩ t () ⟨.debug⟩ →
      t = (FormatItem.conversion [] (.uint 7#32)).rendering := by
  intro h
  have hstr : (stringLiteral "%u").Holds
      ([FormatItem.conversion [] (.uint 7#32)].flatMap FormatItem.bytes) :=
    holds_stringLiteral (by decide) (by decide)
  have hflagless := h _ (logFormatedStr_runs _ _ [] hstr)
  exact absurd hflagless (by decide)
