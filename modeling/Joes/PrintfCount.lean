import Joes.PrintfSteps

/-!
# What `printf` counts

`printf` is to return the number of characters that it passes to `terminal_put_char`,
and to store with `%n` the number of those that it passed before. A format string of
its grammar is a list of `PrintItem`s: those of the logger, and `%n`.

The counter misses two characters of each `%p`. It is right if and only if there is
no `%p`, and the numbers fit: the last one in a `size_t`, and those of `%n` in an
`int` (`printf_counts_iff`).

For the items the transducer of `printf` has a sequence of steps, which is found item by item,
and what it prints and stores is a function of the items (`printEvents`). So the rest is about
that function. What is printed is the text of the items, and the counter is the number of
its characters less those that it misses (`countedIn_add_missedIn`). A stored value is the
counter at its `%n`, cut down to an `int` (`exists_noOutput_of_store`).

The value that is returned is the counter modulo `2 ^ 64`, so it is too small if the counter
misses something, and also if the number does not fit. Where nothing is missed, a stored value is
the number of characters before its `%n` exactly if an `int` can have that value
(`toInt_ofNat_eq_iff`).
-/

/-- **The items of a format string** of `printf`. -/
inductive PrintItem where
  | item (item : FormatItem)
  | noOutput (flags : List FormatFlag) (pointer : BitVec 64)

namespace PrintItem

/-- The characters of an item. -/
def bytes : PrintItem → List (BitVec 8)
  | item i => i.bytes
  | noOutput flags _ => charByte '%' :: (flags.map FormatFlag.byte ++ [charByte 'n'])

/-- The arguments of an item. -/
def args : PrintItem → List VaArg
  | item i => i.args
  | noOutput _ pointer => [.pointer pointer]

/-- What is printed for an item. -/
def text : PrintItem → List (BitVec 8)
  | item i => i.written
  | noOutput _ _ => []

/-- The pointer behind which something is to be stored for an item. -/
def pointers : PrintItem → List (BitVec 64)
  | item _ => []
  | noOutput _ pointer => [pointer]

/-- An item is a `%p`. -/
def IsPointer : PrintItem → Prop
  | item (.conversion _ (.pointer _)) => True
  | _ => False

/-- The number of characters of an item that the counter misses. -/
def missed : PrintItem → ℕ
  | item (.conversion _ (.pointer _)) => 2
  | _ => 0

/-- The number of characters of an item that the counter has. -/
def counted (i : PrintItem) : ℕ := i.text.length - i.missed

/-- What is done for an item, where the counter is `n`. -/
def events (n : BitVec 64) : PrintItem → List PrintEvent
  | item i => i.written.map .terminalPutChar
  | noOutput _ pointer => [.store pointer (n.setWidth 32)]

theorem counted_add_missed (i : PrintItem) : i.counted + i.missed = i.text.length := by
  refine Nat.sub_add_cancel ?_
  cases i with
  | noOutput flags pointer => exact Nat.zero_le _
  | item i =>
    cases i with
    | literal c hc => exact Nat.zero_le _
    | conversion flags conv =>
      cases conv with
      | pointer v => exact Nat.le_add_left _ _
      | _ => exact Nat.zero_le _

theorem missed_eq_zero_iff (i : PrintItem) : i.missed = 0 ↔ ¬ i.IsPointer := by
  cases i with
  | noOutput flags pointer => exact iff_of_true rfl id
  | item i =>
    cases i with
    | literal c hc => exact iff_of_true rfl id
    | conversion flags conv =>
      cases conv with
      | pointer v => exact iff_of_false (Nat.succ_ne_zero 1) (not_not.mpr trivial)
      | _ => exact iff_of_true rfl id

end PrintItem

/-- What is done for the items, from a value of the counter on. -/
def printEvents : BitVec 64 → List PrintItem → List PrintEvent
  | _, [] => []
  | n, i :: items => i.events n ++ printEvents (n + BitVec.ofNat 64 i.counted) items

/-- The number of characters that the counter has of the items. -/
def countedIn (items : List PrintItem) : ℕ := (items.map PrintItem.counted).sum

/-- The number of characters that the counter misses of the items. -/
def missedIn (items : List PrintItem) : ℕ := (items.map PrintItem.missed).sum

/-! ## The steps for the items -/

section Steps

variable {list : List VaArg} {flag : Option FormatFlag} {n : BitVec 64}

/-- A step for which nothing is printed. -/
theorem PrintStep.silent {r r' : FormatReader} {c : BitVec 8} (h : FormatStep r c [] r') :
    PrintStep ⟨r, n⟩ c [] ⟨r', n⟩ := by
  have hstep : PrintStep ⟨r, n⟩ c [] _ := .format h
  rwa [List.length_nil, Nat.zero_sub, BitVec.add_zero] at hstep

theorem printSteps_flags (flags : List FormatFlag) :
    Transducer.Steps PrintStep ⟨⟨list, .format, flag⟩, n⟩ (flags.map FormatFlag.byte) []
      ⟨⟨list, .format, flags.getLast?.or flag⟩, n⟩ := by
  induction flags generalizing flag with
  | nil => exact .nil _
  | cons f flags ih =>
    have hor : (f :: flags).getLast?.or flag = flags.getLast?.or (some f) := by
      rw [List.getLast?_cons]
      cases flags.getLast? <;> rfl
    rw [hor]
    exact .cons (.silent (.flag f)) ih

/-- A conversion, from its first character to its last one. -/
theorem printSteps_conversion {flags : List FormatFlag} {c : BitVec 8} {u : List PrintEvent}
    {p : PrintReader} (h : PrintStep ⟨⟨list, .format, flags.getLast?⟩, n⟩ c u p) :
    Transducer.Steps PrintStep ⟨⟨list, .normal, flag⟩, n⟩
      (charByte '%' :: (flags.map FormatFlag.byte ++ [c])) u p := by
  have hflags : Transducer.Steps PrintStep ⟨⟨list, .format, none⟩, n⟩
      (flags.map FormatFlag.byte) [] ⟨⟨list, .format, flags.getLast?.or none⟩, n⟩ :=
    printSteps_flags flags
  rw [Option.or_none] at hflags
  have hlast : Transducer.Steps PrintStep ⟨⟨list, .format, flags.getLast?⟩, n⟩ [c] (u ++ []) p :=
    .cons h (.nil p)
  rw [List.append_nil] at hlast
  exact .cons (.silent .start) (hflags.append hlast)

/-- **The steps for an item.** -/
theorem printSteps_item (i : PrintItem) (list : List VaArg) (flag : Option FormatFlag)
    (n : BitVec 64) :
    ∃ flag', Transducer.Steps PrintStep ⟨⟨i.args ++ list, .normal, flag⟩, n⟩ i.bytes (i.events n)
      ⟨⟨list, .normal, flag'⟩, n + BitVec.ofNat 64 i.counted⟩ := by
  cases i with
  | noOutput flags pointer =>
    refine ⟨flags.getLast?, ?_⟩
    rw [show n + BitVec.ofNat 64 (PrintItem.noOutput flags pointer).counted = n from
      BitVec.add_zero n]
    exact printSteps_conversion (.noOutput pointer)
  | item i =>
    cases i with
    | literal c hc =>
      have hstep : PrintStep ⟨⟨list, .normal, flag⟩, n⟩ c [.terminalPutChar c]
          ⟨⟨list, .normal, flag⟩, n + 1#64⟩ := .format (.literal hc)
      exact ⟨flag, .cons hstep (.nil _)⟩
    | conversion flags conv =>
      have hcounted : (PrintItem.item (.conversion flags conv)).counted =
          (conv.written flags.getLast?).length - uncounted .format conv.byte := by
        cases conv <;> rfl
      rw [hcounted]
      exact ⟨flags.getLast?, printSteps_conversion (.format (.conversion conv))⟩

/-- **The steps for the items**, one after the other. -/
theorem printSteps_items (items : List PrintItem) (list : List VaArg)
    (flag : Option FormatFlag) (n : BitVec 64) :
    ∃ flag', Transducer.Steps PrintStep ⟨⟨items.flatMap PrintItem.args ++ list, .normal, flag⟩, n⟩
      (items.flatMap PrintItem.bytes) (printEvents n items)
      ⟨⟨list, .normal, flag'⟩, n + BitVec.ofNat 64 (countedIn items)⟩ := by
  induction items generalizing n flag with
  | nil => exact ⟨flag, (BitVec.add_zero n).symm ▸ .nil _⟩
  | cons i items ih =>
    obtain ⟨flag₁, hitem⟩ :=
      printSteps_item i (items.flatMap PrintItem.args ++ list) flag n
    obtain ⟨flag₂, hitems⟩ := ih flag₁ (n + BitVec.ofNat 64 i.counted)
    refine ⟨flag₂, ?_⟩
    rw [BitVec.add_assoc, ← BitVec.ofNat_add] at hitems
    rw [List.flatMap_cons, List.flatMap_cons, List.append_assoc]
    exact hitem.append hitems

/-- **What `printf` does** for the items of its format string. -/
theorem printf_runs_items (formatString : CharBuffer) {str : CharBuffer}
    {items : List PrintItem} (list : List VaArg)
    (hstr : str.Holds (items.flatMap PrintItem.bytes)) :
    (Printf.printf formatString str (items.flatMap PrintItem.args ++ list)).Runs ()
      (printEvents 0#64 items) (BitVec.ofNat 64 (countedIn items)) () := by
  obtain ⟨flag', hsteps⟩ := printSteps_items items list none 0#64
  rw [BitVec.zero_add] at hsteps
  exact Printf.printf_runs_steps formatString hstr hsteps

end Steps

/-! ## Counting -/

/-- The character that is passed to `terminal_put_char`, if one is. -/
def PrintEvent.putChar : PrintEvent → Option (BitVec 8)
  | terminalPutChar c => some c
  | store _ _ => none

/-- The pointer behind which something is stored, if something is. -/
def PrintEvent.pointer : PrintEvent → Option (BitVec 64)
  | terminalPutChar _ => none
  | store pointer _ => some pointer

/-- The characters that are passed to `terminal_put_char`. -/
def putChars (t : List PrintEvent) : List (BitVec 8) := t.filterMap PrintEvent.putChar

/-- **What is printed is counted**: the value that is returned is the number of
characters, and behind each of the pointers the number of those before is stored. -/
structure Counts (pointers : List (BitVec 64)) (t : List PrintEvent) (ret : BitVec 64) :
    Prop where
  ret : ret.toNat = (putChars t).length
  pointers : t.filterMap PrintEvent.pointer = pointers
  stores : ∀ t₁ pointer value t₂, t = t₁ ++ .store pointer value :: t₂ →
    value.toInt = ((putChars t₁).length : ℤ)

variable {items : List PrintItem} {n : BitVec 64}

theorem putChars_append (t₁ t₂ : List PrintEvent) :
    putChars (t₁ ++ t₂) = putChars t₁ ++ putChars t₂ := List.filterMap_append

/-- What is printed for the items. -/
theorem putChars_printEvents (items : List PrintItem) (n : BitVec 64) :
    putChars (printEvents n items) = items.flatMap PrintItem.text := by
  induction items generalizing n with
  | nil => rfl
  | cons i items ih =>
    rw [printEvents, putChars_append, ih, List.flatMap_cons]
    refine congrArg (· ++ _) ?_
    cases i with
    | noOutput flags pointer => rfl
    | item i =>
      rw [PrintItem.events, putChars, List.filterMap_map]
      exact List.filterMap_some

/-- Where something is stored for the items. -/
theorem pointers_printEvents (items : List PrintItem) (n : BitVec 64) :
    (printEvents n items).filterMap PrintEvent.pointer = items.flatMap PrintItem.pointers := by
  induction items generalizing n with
  | nil => rfl
  | cons i items ih =>
    rw [printEvents, List.filterMap_append, ih, List.flatMap_cons]
    refine congrArg (· ++ _) ?_
    cases i with
    | noOutput flags pointer => rfl
    | item i =>
      rw [PrintItem.events, List.filterMap_map]
      exact List.filterMap_eq_nil_iff.mpr fun c _ => rfl

/-- The events of the items before a `%n`, and what it stores. -/
theorem printEvents_append_noOutput (pre : List PrintItem) (flags : List FormatFlag)
    (pointer : BitVec 64) (post : List PrintItem) (n : BitVec 64) :
    ∃ t₂, printEvents n (pre ++ .noOutput flags pointer :: post) =
      printEvents n pre ++
        .store pointer ((n + BitVec.ofNat 64 (countedIn pre)).setWidth 32) :: t₂ := by
  induction pre generalizing n with
  | nil =>
    refine ⟨printEvents (n + 0#64) post, ?_⟩
    rw [show n + BitVec.ofNat 64 (countedIn []) = n from BitVec.add_zero n]
    rfl
  | cons i pre ih =>
    obtain ⟨t₂, hpre⟩ := ih (n + BitVec.ofNat 64 i.counted)
    refine ⟨t₂, ?_⟩
    rw [List.cons_append, printEvents, hpre, BitVec.add_assoc, ← BitVec.ofNat_add]
    exact (List.append_assoc _ _ _).symm

/-- **What is stored** is stored for a `%n`. -/
theorem exists_noOutput_of_store {t₁ t₂ : List PrintEvent} {pointer : BitVec 64}
    {value : BitVec 32} (h : printEvents n items = t₁ ++ .store pointer value :: t₂) :
    ∃ pre flags post, items = pre ++ .noOutput flags pointer :: post ∧ t₁ = printEvents n pre ∧
      value = (n + BitVec.ofNat 64 (countedIn pre)).setWidth 32 := by
  induction items generalizing n t₁ with
  | nil => cases t₁ <;> cases h
  | cons i items ih =>
    have hlater : ∀ t₁, printEvents (n + BitVec.ofNat 64 i.counted) items =
        t₁ ++ .store pointer value :: t₂ →
        ∃ pre flags post, i :: items = pre ++ .noOutput flags pointer :: post ∧
          i.events n ++ t₁ = printEvents n pre ∧
          value = (n + BitVec.ofNat 64 (countedIn pre)).setWidth 32 := by
      intro t₁ hrest
      obtain ⟨pre, flags, post, rfl, rfl, hvalue⟩ := ih hrest
      refine ⟨i :: pre, flags, post, rfl, rfl, ?_⟩
      rw [hvalue, BitVec.add_assoc, ← BitVec.ofNat_add]
      rfl
    rw [printEvents] at h
    rcases List.append_eq_append_iff.mp h with ⟨u, rfl, hrest⟩ | ⟨u, hevents, hrest⟩
    · exact hlater _ hrest
    cases u with
    | nil =>
      obtain ⟨pre, flags, post, hitems, ht₁, hvalue⟩ := hlater [] hrest.symm
      rw [hevents, List.append_nil, List.append_nil] at ht₁
      exact ⟨pre, flags, post, hitems, ht₁, hvalue⟩
    | cons e u =>
      -- The store is one of the item itself.
      obtain ⟨rfl, -⟩ := List.cons.inj hrest
      cases i with
      | item i =>
        have hmem : PrintEvent.store pointer value ∈ (PrintItem.item i).events n := by
          rw [hevents]
          exact List.mem_append_right t₁ List.mem_cons_self
        obtain ⟨c, -, hc⟩ := List.mem_map.mp hmem
        cases hc
      | noOutput flags pointer' =>
        cases t₁ with
        | nil =>
          obtain ⟨hstore, -⟩ := List.cons.inj hevents
          obtain ⟨rfl, rfl⟩ := PrintEvent.store.inj hstore
          refine ⟨[], flags, items, rfl, rfl, ?_⟩
          rw [show n + BitVec.ofNat 64 (countedIn []) = n from BitVec.add_zero n]
        | cons e t₁ =>
          have hnil := (List.cons.inj hevents).2
          exact absurd hnil.symm (List.append_ne_nil_of_right_ne_nil t₁ (List.cons_ne_nil _ u))

/-! ## When the counter is right -/

/-- What the counter has and what it misses is what is printed. -/
theorem countedIn_add_missedIn (items : List PrintItem) :
    countedIn items + missedIn items = (items.flatMap PrintItem.text).length := by
  induction items with
  | nil => rfl
  | cons i items ih =>
    rw [List.flatMap_cons, List.length_append, ← ih, ← i.counted_add_missed]
    simp only [countedIn, missedIn, List.map_cons, List.sum_cons]
    omega

theorem missedIn_eq_zero_iff (items : List PrintItem) :
    missedIn items = 0 ↔ ∀ i ∈ items, ¬ i.IsPointer := by
  simp only [missedIn, List.sum_eq_zero_iff_forall_eq_nat, List.forall_mem_map,
    PrintItem.missed_eq_zero_iff]

/-- An `int` has the value of a number that fits, and of no other one. -/
theorem toInt_ofNat_eq_iff (k : ℕ) : (BitVec.ofNat 32 k).toInt = (k : ℤ) ↔ k < 2 ^ 31 := by
  constructor
  · intro h
    have hlt : (BitVec.ofNat 32 k).toInt < 2 ^ 31 := BitVec.toInt_lt
    omega
  · intro h
    have htoNat : (BitVec.ofNat 32 k).toNat = k := by
      rw [BitVec.toNat_ofNat, Nat.mod_eq_of_lt (by omega)]
    rw [BitVec.toInt_eq_toNat_of_lt (by omega), htoNat]

/-- **The stored values** are right where the counter is. -/
theorem stores_printEvents_iff (hpointer : missedIn items = 0) :
    (∀ t₁ pointer value t₂, printEvents 0#64 items = t₁ ++ .store pointer value :: t₂ →
      value.toInt = ((putChars t₁).length : ℤ)) ↔
      ∀ pre flags pointer post, items = pre ++ .noOutput flags pointer :: post →
        (pre.flatMap PrintItem.text).length < 2 ^ 31 := by
  -- What the counter has at a `%n` is what was printed before it.
  have hvalue : ∀ pre i post, items = pre ++ i :: post →
      (0#64 + BitVec.ofNat 64 (countedIn pre)).setWidth 32 =
        BitVec.ofNat 32 (pre.flatMap PrintItem.text).length := by
    rintro pre i post rfl
    have hpre : missedIn pre = 0 := by
      simp only [missedIn, List.map_append, List.sum_append] at hpointer ⊢
      omega
    rw [← countedIn_add_missedIn, hpre, Nat.add_zero, BitVec.zero_add,
      BitVec.setWidth_ofNat_of_le (by decide)]
  constructor
  · rintro h pre flags pointer post rfl
    obtain ⟨t₂, hevents⟩ := printEvents_append_noOutput pre flags pointer post 0#64
    have hstore := h _ _ _ _ hevents
    rw [hvalue pre _ post rfl, putChars_printEvents] at hstore
    exact (toInt_ofNat_eq_iff _).mp hstore
  · intro h t₁ pointer value t₂ ht
    obtain ⟨pre, flags, post, rfl, rfl, rfl⟩ := exists_noOutput_of_store ht
    rw [hvalue pre _ post rfl, putChars_printEvents]
    exact (toInt_ofNat_eq_iff _).mpr (h pre flags pointer post rfl)

/-- **The counter of `printf` is right** if and only if there is no `%p`, what is
printed is less than 2 ^ 64 characters, and before each `%n` less than 2 ^ 31. The
call returns, whatever its array contains and whatever further arguments there are. -/
theorem printf_counts_iff (formatString : CharBuffer) {str : CharBuffer}
    {items : List PrintItem} (list : List VaArg)
    (hstr : str.Holds (items.flatMap PrintItem.bytes)) :
    ∃ t ret, (Printf.printf formatString str (items.flatMap PrintItem.args ++ list)).Runs
        () t ret () ∧
      (Counts (items.flatMap PrintItem.pointers) t ret ↔
        (∀ i ∈ items, ¬ i.IsPointer) ∧ (items.flatMap PrintItem.text).length < 2 ^ 64 ∧
        ∀ pre flags pointer post, items = pre ++ .noOutput flags pointer :: post →
          (pre.flatMap PrintItem.text).length < 2 ^ 31) := by
  refine ⟨_, _, printf_runs_items formatString list hstr, ?_⟩
  have hsum := countedIn_add_missedIn items
  have hret : (BitVec.ofNat 64 (countedIn items)).toNat =
        (putChars (printEvents 0#64 items)).length ↔
      missedIn items = 0 ∧ (items.flatMap PrintItem.text).length < 2 ^ 64 := by
    rw [putChars_printEvents, BitVec.toNat_ofNat]
    omega
  constructor
  · intro h
    obtain ⟨hmissed, hlength⟩ := hret.mp h.ret
    exact ⟨(missedIn_eq_zero_iff items).mp hmissed, hlength,
      (stores_printEvents_iff hmissed).mp h.stores⟩
  · rintro ⟨hpointer, hlength, hstores⟩
    have hmissed := (missedIn_eq_zero_iff items).mpr hpointer
    exact ⟨hret.mpr ⟨hmissed, hlength⟩, pointers_printEvents items _,
      (stores_printEvents_iff hmissed).mpr hstores⟩

/-- A format string with a number, and with what is printed before its end. -/
theorem printf_counts_iff_number :
    ∃ t ret, (Printf.printf (stringLiteral "") (stringLiteral "n = %+d%n")
        [.int 42#32, .pointer 0x2000#64]).Runs () t ret () ∧ Counts [0x2000#64] t ret := by
  let items : List PrintItem :=
    [.item (.literal (charByte 'n') (by decide)), .item (.literal (charByte ' ') (by decide)),
      .item (.literal (charByte '=') (by decide)), .item (.literal (charByte ' ') (by decide)),
      .item (.conversion [.plus] (.int1 42#32)), .noOutput [] 0x2000#64]
  have hstr : (stringLiteral "n = %+d%n").Holds (items.flatMap PrintItem.bytes) :=
    holds_stringLiteral (by decide) (by decide)
  obtain ⟨t, ret, hrun, hiff⟩ := printf_counts_iff (stringLiteral "") [] hstr
  refine ⟨t, ret, hrun, hiff.mpr ⟨?_, by decide, ?_⟩⟩
  · simp [items, PrintItem.IsPointer]
  · intro pre flags pointer post hsplit
    have hlength := congrArg (fun is => (is.flatMap PrintItem.text).length) hsplit
    simp only [List.flatMap_append, List.length_append] at hlength
    have hitems : (items.flatMap PrintItem.text).length = 7 := by decide
    omega

/-- Of a pointer, the first two characters are not counted. -/
theorem printf_pointer_not_counted :
    ¬ ∀ t ret, (Printf.printf (stringLiteral "") (stringLiteral "%p")
        [.pointer 0x1000#64]).Runs () t ret () → Counts [] t ret := by
  intro h
  have hstr : (stringLiteral "%p").Holds
      ([PrintItem.item (.conversion [] (.pointer 0x1000#64))].flatMap PrintItem.bytes) :=
    holds_stringLiteral (by decide) (by decide)
  have hret := (h _ _ (printf_runs_items (stringLiteral "") [] hstr)).ret
  exact absurd hret (by decide)
