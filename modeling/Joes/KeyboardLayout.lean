import Joes.Libc
import Joes.Ps2Scancode

/-!
# Key events as text

`kbd_key_event_to_ascii` looks a key event up in one of the tables of the German
layout, chosen by the modifier flags the event carries. `typedText` is what the
keys are to type: it chooses the table by what the keys themselves did before,
whether AltGr and Shift are held and how often Caps Lock was pressed.

The flags of an event are set by `ps2_kbd_set_modifiers`, one event after the
other, which is what `Stamped` says of a list of events. Where the Shift keys are
counted well, the text of stamped events is the typed one
(`Stamped.flatMap_text`).
-/

/-- `kbd_layout_german.normal`, without the keys that type nothing. -/
def kbdLayoutGermanNormal : List (KeyCode × String) :=
  [(.keyCircumflex, "^"), (.key1, "1"), (.key2, "2"), (.key3, "3"), (.key4, "4"), (.key5, "5"),
   (.key6, "6"), (.key7, "7"), (.key8, "8"), (.key9, "9"), (.key0, "0"), (.keyß, "ss"),
   (.keyBackTick, "'"), (.keyBackspace, "\x08"), (.keyTab, "\t"), (.keyQ, "q"), (.keyW, "w"),
   (.keyE, "e"), (.keyR, "r"), (.keyT, "t"), (.keyZ, "z"), (.keyU, "u"), (.keyI, "i"),
   (.keyO, "o"), (.keyP, "p"), (.keyÜ, "ue"), (.keyPlus, "+"), (.keyEnter, "\n"), (.keyA, "a"),
   (.keyS, "s"), (.keyD, "d"), (.keyF, "f"), (.keyG, "g"), (.keyH, "h"), (.keyJ, "j"),
   (.keyK, "k"), (.keyL, "l"), (.keyÖ, "oe"), (.keyÄ, "ae"), (.keyHashtag, "#"),
   (.keyLessThen, "<"), (.keyY, "y"), (.keyX, "x"), (.keyC, "c"), (.keyV, "v"), (.keyB, "b"),
   (.keyN, "n"), (.keyM, "m"), (.keyComma, ","), (.keyPeriod, "."), (.keyMinus, "-"),
   (.keySpace, " "), (.keyKeypadSlash, "/"), (.keyKeypadAsterisk, "*"), (.keyKeypadMinus, "-"),
   (.keyKeypad7, "7"), (.keyKeypad8, "8"), (.keyKeypad9, "9"), (.keyKeypadPlus, "+"),
   (.keyKeypad4, "4"), (.keyKeypad5, "5"), (.keyKeypad6, "6"), (.keyKeypad1, "1"),
   (.keyKeypad2, "2"), (.keyKeypad3, "3"), (.keyKeypad0, "0"), (.keyKeypadDelete, "."),
   (.keyKeypadEnter, "\n")]

/-- `kbd_layout_german.shift`. -/
def kbdLayoutGermanShift : List (KeyCode × String) :=
  [(.key1, "!"), (.key2, "\""), (.key4, "$"), (.key5, "%"), (.key6, "&"), (.key7, "/"),
   (.key8, "("), (.key9, ")"), (.key0, "="), (.keyß, "?"), (.keyBackTick, "`"), (.keyQ, "Q"),
   (.keyW, "W"), (.keyE, "E"), (.keyR, "R"), (.keyT, "T"), (.keyZ, "Z"), (.keyU, "U"),
   (.keyI, "I"), (.keyO, "O"), (.keyP, "P"), (.keyÜ, "UE"), (.keyPlus, "*"), (.keyA, "A"),
   (.keyS, "S"), (.keyD, "D"), (.keyF, "F"), (.keyG, "G"), (.keyH, "H"), (.keyJ, "J"),
   (.keyK, "K"), (.keyL, "L"), (.keyÖ, "OE"), (.keyÄ, "AE"), (.keyHashtag, "'"),
   (.keyLessThen, ">"), (.keyY, "Y"), (.keyX, "X"), (.keyC, "C"), (.keyV, "V"), (.keyB, "B"),
   (.keyN, "N"), (.keyM, "M"), (.keyComma, ";"), (.keyPeriod, ":"), (.keyMinus, "_"),
   (.keySpace, " "), (.keyKeypadSlash, "/"), (.keyKeypadAsterisk, "*"), (.keyKeypadMinus, "-"),
   (.keyKeypad7, "7"), (.keyKeypad8, "8"), (.keyKeypad9, "9"), (.keyKeypadPlus, "+"),
   (.keyKeypad4, "4"), (.keyKeypad5, "5"), (.keyKeypad6, "6"), (.keyKeypad1, "1"),
   (.keyKeypad2, "2"), (.keyKeypad3, "3"), (.keyKeypad0, "0"), (.keyKeypadDelete, ".")]

/-- `kbd_layout_german.altgr`. -/
def kbdLayoutGermanAltgr : List (KeyCode × String) :=
  [(.keyQ, "@"), (.key7, "\x7b"), (.key8, "["), (.key9, "]"), (.key0, "\x7d"), (.keyß, "\\"),
   (.keyPlus, "~"), (.keyHashtag, "'"), (.keyLessThen, "|")]

/-- An element of a table, which is the empty string for a key it does not name. -/
def layoutEntry (table : List (KeyCode × String)) (keycode : KeyCode) : String :=
  (table.lookup keycode).getD ""

/-- `kbd_key_event_to_ascii`. -/
def kbdKeyEventToAscii (keyEvent : KeyEvent) : String :=
  if keyEvent.pressed = .released then ""
  else if keyEvent.modifiers &&& kbdModifierMaskAltgr ≠ 0#16 then
    layoutEntry kbdLayoutGermanAltgr keyEvent.keycode
  else if keyEvent.modifiers &&& kbdModifierMaskCapsLock ≠ 0#16 then
    if keyEvent.modifiers &&& kbdModifierMaskShift ≠ 0#16 then
      layoutEntry kbdLayoutGermanNormal keyEvent.keycode
    else layoutEntry kbdLayoutGermanShift keyEvent.keycode
  else
    if keyEvent.modifiers &&& kbdModifierMaskShift ≠ 0#16 then
      layoutEntry kbdLayoutGermanShift keyEvent.keycode
    else layoutEntry kbdLayoutGermanNormal keyEvent.keycode

/-- The bytes a key event types. -/
def KeyEvent.text (keyEvent : KeyEvent) : List (BitVec 8) :=
  charBytes (kbdKeyEventToAscii keyEvent)

/-! ## The strings of the layout -/

/-- **Every string of the layout** is a short one with no byte that ends it. -/
theorem layoutEntry_wellFormed {table : List (KeyCode × String)}
    (htable : table ∈ [kbdLayoutGermanNormal, kbdLayoutGermanShift, kbdLayoutGermanAltgr])
    (keycode : KeyCode) :
    (layoutEntry table keycode).toList.length ≤ 2 ∧
      0#8 ∉ (layoutEntry table keycode).toList.map charByte := by
  have hentries : ∀ table ∈ [kbdLayoutGermanNormal, kbdLayoutGermanShift, kbdLayoutGermanAltgr],
      ∀ entry ∈ table, entry.2.toList.length ≤ 2 ∧ 0#8 ∉ entry.2.toList.map charByte := by
    decide +kernel
  unfold layoutEntry
  cases hlookup : table.lookup keycode with
  | none => exact ⟨by decide, by decide⟩
  | some s =>
    obtain ⟨l₁, l₂, rfl, -⟩ := List.lookup_eq_some_iff.mp hlookup
    exact hentries _ htable (keycode, s) (by simp)

theorem kbdKeyEventToAscii_wellFormed (keyEvent : KeyEvent) :
    (kbdKeyEventToAscii keyEvent).toList.length ≤ 2 ∧
      0#8 ∉ (kbdKeyEventToAscii keyEvent).toList.map charByte := by
  unfold kbdKeyEventToAscii
  repeat' split
  · exact ⟨by decide, by decide⟩
  all_goals exact layoutEntry_wellFormed (by simp) _

/-! ## What the keys type -/

instance (k : KeyCode) (evs : List KeyEvent) : Decidable (Held k evs) :=
  inferInstanceAs (Decidable (_ = _))

instance (k k' : KeyCode) (evs : List KeyEvent) : Decidable (PairHeld k k' evs) :=
  inferInstanceAs (Decidable (_ ∨ _))

/-- **The table a history of events asks for**: that of AltGr while it is held, and
otherwise that of Shift if exactly one of the two, Shift held and Caps Lock on, is
the case. -/
def typedTable (evs : List KeyEvent) : List (KeyCode × String) :=
  if Held .keyAltgr evs then kbdLayoutGermanAltgr
  else if Odd (presses .keyCapsLock evs) ↔ PairHeld .keyLshift .keyRshift evs then
    kbdLayoutGermanNormal
  else kbdLayoutGermanShift

/-- What one event types after others. -/
def typedString (pre : List KeyEvent) (keyEvent : KeyEvent) : String :=
  if keyEvent.pressed = .released then ""
  else layoutEntry (typedTable (pre ++ [keyEvent])) keyEvent.keycode

/-- **The text that events type** after others. It does not depend on the flags that
the events carry. -/
def typedText (pre : List KeyEvent) : List KeyEvent → List (BitVec 8)
  | [] => []
  | keyEvent :: evs => charBytes (typedString pre keyEvent) ++ typedText (pre ++ [keyEvent]) evs

/-! ## Events with flags -/

variable {pre evs pre' evs' : List KeyEvent} {e : KeyEvent}

/-- **Events stamped** after others: each carries the flags that
`ps2_kbd_set_modifiers` sets for it. -/
def Stamped : List KeyEvent → List KeyEvent → Prop
  | _, [] => True
  | pre, e :: evs =>
    e.modifiers = (modifiersAfter (pre ++ [e])).modifiersOld ∧ Stamped (pre ++ [e]) evs

/-- The flag of AltGr, which no other key shares, is always right. -/
theorem modifiersAfter_altgr_iff (evs : List KeyEvent) :
    (modifiersAfter evs).modifiersOld &&& kbdModifierMaskAltgr ≠ 0#16 ↔ Held .keyAltgr evs := by
  rw [kbdModifierMaskAltgr, and_mask_ne_zero_iff (by decide)]
  exact getLsbD_modifiersAfter_iff_held (by decide)
    (fun e m hk => by rw [ps2KbdSetModifiers, hk]; rfl)
    (fun k' h => by simpa using eq_of_modifierBit h) evs

/-- And so is that of Caps Lock. -/
theorem modifiersAfter_capsLock_iff (evs : List KeyEvent) :
    (modifiersAfter evs).modifiersOld &&& kbdModifierMaskCapsLock ≠ 0#16 ↔
      Odd (presses .keyCapsLock evs) := by
  rw [kbdModifierMaskCapsLock, and_mask_ne_zero_iff (by decide)]
  exact getLsbD_modifiersAfter_iff_odd (by decide)
    (fun e m hk => by rw [ps2KbdSetModifiers, hk]; rfl)
    (fun k' h => by simpa using eq_of_modifierBit h) evs

/-- The flag of the Shift keys is right where they are counted well. -/
theorem modifiersAfter_shift_iff (hcounted : PairCounted .keyLshift .keyRshift evs)
    (hpre : pre <+: evs) :
    (modifiersAfter pre).modifiersOld &&& kbdModifierMaskShift ≠ 0#16 ↔
      PairHeld .keyLshift .keyRshift pre := by
  rw [kbdModifierMaskShift, and_mask_ne_zero_iff (by decide)]
  exact (countedPair_shift.forall_flag_iff evs).mpr hcounted pre hpre

/-- **One event** types what its history asks for, if its flags say what the keys
did. -/
theorem kbdKeyEventToAscii_eq_typedString
    (hflags : e.modifiers = (modifiersAfter (pre ++ [e])).modifiersOld)
    (hshift : (modifiersAfter (pre ++ [e])).modifiersOld &&& kbdModifierMaskShift ≠ 0#16 ↔
      PairHeld .keyLshift .keyRshift (pre ++ [e])) :
    kbdKeyEventToAscii e = typedString pre e := by
  unfold kbdKeyEventToAscii typedString typedTable
  rw [hflags]
  simp only [modifiersAfter_altgr_iff, modifiersAfter_capsLock_iff, hshift]
  -- The code asks for Caps Lock first and the layout for both at once.
  by_cases hcaps : Odd (presses .keyCapsLock (pre ++ [e])) <;>
    by_cases hheld : PairHeld .keyLshift .keyRshift (pre ++ [e]) <;>
      simp [hcaps, hheld, apply_ite (layoutEntry · e.keycode)]

/-- **Stamped events type the typed text**, where the Shift keys are counted well. -/
theorem Stamped.flatMap_text (h : Stamped pre evs)
    (hcounted : PairCounted .keyLshift .keyRshift (pre ++ evs)) :
    evs.flatMap KeyEvent.text = typedText pre evs := by
  induction evs generalizing pre with
  | nil => rfl
  | cons e evs ih =>
    have happend : pre ++ e :: evs = (pre ++ [e]) ++ evs := by
      rw [List.append_assoc, List.singleton_append]
    rw [happend] at hcounted
    have hshift := modifiersAfter_shift_iff hcounted (List.prefix_append _ _)
    rw [List.flatMap_cons, typedText, ← kbdKeyEventToAscii_eq_typedString h.1 hshift,
      ih h.2 hcounted]
    rfl

/-! ## What matters of an event -/

/-- Setting the modifiers only looks at the key and the kind of the event. -/
theorem ps2KbdSetModifiers_congr {e' : KeyEvent} (h : e.label = e'.label) (m : Ps2Modifiers) :
    ps2KbdSetModifiers e m = ps2KbdSetModifiers e' m := by
  obtain ⟨k, p, flags⟩ := e
  obtain ⟨k', p', flags'⟩ := e'
  obtain ⟨rfl, rfl⟩ := Prod.mk.inj h
  rfl

theorem held_congr (h : evs.map KeyEvent.label = evs'.map KeyEvent.label) (k : KeyCode) :
    Held k evs ↔ Held k evs' := by
  have hlabels : ∀ l : List KeyEvent, (l.filter (·.keycode = k)).getLast?.map (·.pressed) =
      ((l.map KeyEvent.label).filter (·.1 = k)).getLast?.map (·.2) := by
    intro l
    rw [List.filter_map, List.getLast?_map, Option.map_map]
    rfl
  unfold Held
  rw [hlabels, hlabels, h]

theorem presses_congr (h : evs.map KeyEvent.label = evs'.map KeyEvent.label) (k : KeyCode) :
    presses k evs = presses k evs' := by
  have hlabels : ∀ l : List KeyEvent, presses k l =
      (l.map KeyEvent.label).countP fun label => label.1 = k ∧ label.2 = .pressed := by
    intro l
    rw [List.countP_map]
    rfl
  rw [hlabels, hlabels, h]

theorem typedTable_congr (h : evs.map KeyEvent.label = evs'.map KeyEvent.label) :
    typedTable evs = typedTable evs' := by
  unfold typedTable
  refine if_congr (held_congr h _) rfl (if_congr ?_ rfl rfl)
  rw [presses_congr h]
  exact iff_congr Iff.rfl (or_congr (held_congr h _) (held_congr h _))

theorem typedString_congr {e' : KeyEvent}
    (hpre : pre.map KeyEvent.label = pre'.map KeyEvent.label) (he : e.label = e'.label) :
    typedString pre e = typedString pre' e' := by
  have hall : (pre ++ [e]).map KeyEvent.label = (pre' ++ [e']).map KeyEvent.label := by
    rw [List.map_append, List.map_append, hpre, List.map_singleton, List.map_singleton, he]
  obtain ⟨hkey, hkind⟩ := Prod.mk.inj he
  rw [typedString, typedString, typedTable_congr hall, hkey, hkind]

/-- **The typed text** only depends on the keys and the kinds of the events. -/
theorem typedText_congr (hpre : pre.map KeyEvent.label = pre'.map KeyEvent.label)
    (h : evs.map KeyEvent.label = evs'.map KeyEvent.label) :
    typedText pre evs = typedText pre' evs' := by
  induction evs generalizing pre pre' evs' with
  | nil =>
    obtain rfl := List.map_eq_nil_iff.mp h.symm
    rfl
  | cons e evs ih =>
    obtain ⟨e', evs', rfl, he, htail⟩ := List.map_eq_cons_iff.mp h.symm
    rw [typedText, typedText, typedString_congr hpre he.symm, ih ?_ htail.symm]
    rw [List.map_append, List.map_append, hpre, List.map_singleton, List.map_singleton, he]

theorem pairHeld_congr (h : evs.map KeyEvent.label = evs'.map KeyEvent.label) (k k' : KeyCode) :
    PairHeld k k' evs ↔ PairHeld k k' evs' :=
  or_congr (held_congr h k) (held_congr h k')

theorem pairBalance_congr (h : evs.map KeyEvent.label = evs'.map KeyEvent.label)
    (k k' : KeyCode) : pairBalance k k' evs = pairBalance k k' evs' := by
  have hlabels : ∀ l : List KeyEvent, l.map (pairDelta k k') =
      (l.map KeyEvent.label).map fun label => pairDelta k k' ⟨label.1, label.2, 0#16⟩ := by
    intro l
    rw [List.map_map]
    rfl
  rw [pairBalance, pairBalance, hlabels, hlabels, h]

/-- How a pair of keys is counted, too. -/
theorem pairCounted_congr {k k' : KeyCode}
    (h : evs.map KeyEvent.label = evs'.map KeyEvent.label) (hcounted : PairCounted k k' evs) :
    PairCounted k k' evs' := by
  induction evs using List.reverseRecOn generalizing evs' with
  | nil =>
    obtain rfl := List.map_eq_nil_iff.mp h.symm
    exact hcounted
  | append_singleton evs e ih =>
    rw [List.map_append] at h
    obtain ⟨pre', l, rfl, hpre, hl⟩ := List.map_eq_append_iff.mp h.symm
    obtain ⟨e', rfl, he⟩ := List.map_eq_singleton_iff.mp hl
    obtain ⟨hevs, hlast⟩ := pairCounted_concat.mp hcounted
    have hall : (evs ++ [e]).map KeyEvent.label = (pre' ++ [e']).map KeyEvent.label := by
      rw [List.map_append, List.map_append, hpre, hl]
    obtain ⟨hkey, hkind⟩ := Prod.mk.inj he
    refine pairCounted_concat.mpr ⟨ih hpre.symm hevs, ?_⟩
    rw [← pairBalance_congr hall, ← pairHeld_congr hall, ← pairHeld_congr hpre.symm, hkey, hkind]
    exact hlast

/-! ## What the driver appends -/

variable {kbd : Ps2Kbd}

/-- **A byte** is at most one event, stamped after those before it. -/
theorem ps2KbdReceive_stamped (hmods : kbd.modifiers = modifiersAfter pre) (c : BitVec 8) :
    Stamped pre (ps2KbdReceive kbd c).1.toList ∧
      (ps2KbdReceive kbd c).2.modifiers
        = modifiersAfter (pre ++ (ps2KbdReceive kbd c).1.toList) := by
  unfold ps2KbdReceive
  split
  · exact ⟨trivial, by rw [Option.toList_none, List.append_nil]; exact hmods⟩
  · dsimp only
    rw [Option.toList_some, hmods, modifiersAfter_concat,
      ps2KbdSetModifiers_congr (m := modifiersAfter pre) label_setModifiers]
    refine ⟨⟨?_, trivial⟩, rfl⟩
    rw [modifiersAfter_concat, ps2KbdSetModifiers_congr label_setModifiers]
    exact modifiers_setModifiers

theorem Stamped.append (h : Stamped pre evs) (h' : Stamped (pre ++ evs) evs') :
    Stamped pre (evs ++ evs') := by
  induction evs generalizing pre with
  | nil => rwa [List.append_nil] at h'
  | cons e evs ih =>
    refine ⟨h.1, ih h.2 ?_⟩
    rwa [List.append_assoc, List.singleton_append]

/-- **The run**: the events of any bytes are stamped. -/
theorem ps2KbdDecode_stamped (hmods : kbd.modifiers = modifiersAfter pre)
    (scancodes : List (BitVec 8)) :
    Stamped pre (ps2KbdDecode kbd scancodes).1 ∧
      (ps2KbdDecode kbd scancodes).2.modifiers
        = modifiersAfter (pre ++ (ps2KbdDecode kbd scancodes).1) := by
  induction scancodes generalizing kbd pre with
  | nil => exact ⟨trivial, hmods.trans (congrArg modifiersAfter (List.append_nil pre).symm)⟩
  | cons c scancodes ih =>
    obtain ⟨hstamped, hnext⟩ := ps2KbdReceive_stamped hmods c
    obtain ⟨hrest, hend⟩ := ih hnext
    rw [ps2KbdDecode_cons]
    exact ⟨hstamped.append hrest, by rw [← List.append_assoc]; exact hend⟩

/-! ## Events that type nothing -/

section Filter

variable {p : KeyEvent → Bool}

/-- **A filter that keeps what types**: it only drops releases of keys that choose no
table. -/
def KeepsText (p : KeyEvent → Bool) : Prop :=
  ∀ e, p e = false → e.pressed = .released ∧
    e.keycode ∉ [KeyCode.keyAltgr, .keyCapsLock, .keyLshift, .keyRshift]

theorem KeepsText.of_mem (hp : KeepsText p) {k : KeyCode}
    (hk : k ∈ [KeyCode.keyAltgr, .keyCapsLock, .keyLshift, .keyRshift]) (h : e.keycode = k) :
    p e = true := by
  by_contra hfalse
  rw [Bool.not_eq_true] at hfalse
  exact (hp e hfalse).2 (h ▸ hk)

theorem KeepsText.held_filter_iff (hp : KeepsText p) {k : KeyCode}
    (hk : k ∈ [KeyCode.keyAltgr, .keyCapsLock, .keyLshift, .keyRshift]) (evs : List KeyEvent) :
    Held k (evs.filter p) ↔ Held k evs := by
  have hfilter : (evs.filter p).filter (·.keycode = k) = evs.filter (·.keycode = k) := by
    rw [List.filter_filter]
    refine List.filter_congr fun e _ => ?_
    by_cases h : e.keycode = k
    · rw [decide_eq_true h, hp.of_mem hk h, Bool.and_self]
    · rw [decide_eq_false h, Bool.false_and]
  rw [Held, Held, hfilter]

theorem KeepsText.presses_filter (hp : KeepsText p) (evs : List KeyEvent) :
    presses .keyCapsLock (evs.filter p) = presses .keyCapsLock evs := by
  unfold presses
  rw [List.countP_filter]
  refine List.countP_congr fun e _ => ?_
  rw [Bool.and_eq_true]
  refine and_iff_left_of_imp fun h => hp.of_mem (by simp) (of_decide_eq_true h).1

theorem KeepsText.typedTable_filter (hp : KeepsText p) (evs : List KeyEvent) :
    typedTable (evs.filter p) = typedTable evs := by
  unfold typedTable
  refine if_congr (hp.held_filter_iff (by simp) evs) rfl (if_congr ?_ rfl rfl)
  rw [hp.presses_filter]
  exact iff_congr Iff.rfl
    (or_congr (hp.held_filter_iff (by simp) evs) (hp.held_filter_iff (by simp) evs))

/-- **The typed text** is that of the events that are kept. -/
theorem KeepsText.typedText_filter (hp : KeepsText p) (pre evs : List KeyEvent) :
    typedText (pre.filter p) (evs.filter p) = typedText pre evs := by
  induction evs generalizing pre with
  | nil => rfl
  | cons e evs ih =>
    have hconcat : (pre ++ [e]).filter p = pre.filter p ++ [e].filter p := List.filter_append _ _
    rw [typedText, ← ih (pre ++ [e]), hconcat]
    cases he : p e with
    | true =>
      have hkept : [e].filter p = [e] := by rw [List.filter_cons_of_pos he, List.filter_nil]
      have htable := hp.typedTable_filter (pre ++ [e])
      rw [hconcat, hkept] at htable
      rw [List.filter_cons_of_pos he, typedText, hkept, typedString, typedString, htable]
    | false =>
      have hdropped : [e].filter p = [] := by
        rw [List.filter_cons_of_neg (by rw [he]; exact Bool.false_ne_true), List.filter_nil]
      have hsilent : typedString pre e = "" := if_pos (hp e he).1
      rw [List.filter_cons_of_neg (by rw [he]; exact Bool.false_ne_true), hdropped,
        List.append_nil, hsilent]
      rfl

theorem KeepsText.pairBalance_filter (hp : KeepsText p) (evs : List KeyEvent) :
    pairBalance .keyLshift .keyRshift (evs.filter p) = pairBalance .keyLshift .keyRshift evs := by
  induction evs with
  | nil => rfl
  | cons e evs ih =>
    have hcons : ∀ l, pairBalance .keyLshift .keyRshift (e :: l) =
        pairDelta .keyLshift .keyRshift e + pairBalance .keyLshift .keyRshift l := fun l =>
      List.sum_cons
    cases he : p e with
    | true => rw [List.filter_cons_of_pos he, hcons, hcons, ih]
    | false =>
      have hno : ¬ (e.keycode = .keyLshift ∨ e.keycode = .keyRshift) := by
        rintro (h | h) <;> exact absurd (hp.of_mem (by simp) h) (by rw [he]; decide)
      rw [List.filter_cons_of_neg (by rw [he]; exact Bool.false_ne_true), hcons, pairDelta,
        if_neg hno, zero_add, ih]

theorem KeepsText.pairHeld_filter_iff (hp : KeepsText p) (evs : List KeyEvent) :
    PairHeld .keyLshift .keyRshift (evs.filter p) ↔ PairHeld .keyLshift .keyRshift evs :=
  or_congr (hp.held_filter_iff (by simp) evs) (hp.held_filter_iff (by simp) evs)

/-- The Shift keys are counted as well in the events that are kept. -/
theorem KeepsText.pairCounted_filter (hp : KeepsText p)
    (h : PairCounted .keyLshift .keyRshift evs) :
    PairCounted .keyLshift .keyRshift (evs.filter p) := by
  induction evs using List.reverseRecOn with
  | nil => exact h
  | append_singleton evs e ih =>
    obtain ⟨hevs, he⟩ := pairCounted_concat.mp h
    have hkept := ih hevs
    rw [List.filter_append]
    cases hpe : p e with
    | false =>
      rw [List.filter_cons_of_neg (by rw [hpe]; exact Bool.false_ne_true), List.filter_nil,
        List.append_nil]
      exact hkept
    | true =>
      have hconcat : evs.filter p ++ [e] = (evs ++ [e]).filter p := by
        rw [List.filter_append, List.filter_cons_of_pos hpe, List.filter_nil]
      rw [List.filter_cons_of_pos hpe, List.filter_nil, pairCounted_concat, hconcat,
        hp.pairBalance_filter, hp.pairHeld_filter_iff, hp.pairHeld_filter_iff]
      exact ⟨hkept, he⟩

end Filter

/-! ## Sequences as events -/

namespace KeySequence

/-- **What a sequence is the event of**, with no flags. Pause is sent once for press
and release. -/
def keyEvent (seq : KeySequence) : KeyEvent :=
  { KeyEvent.zero with keycode := seq.keycode, pressed := seq.eventType .released }

/-- The events that the driver makes of sequences: all but releases of Print Screen. -/
def isDecoded (e : KeyEvent) : Bool := e.label ≠ (.keyPrintScreen, .released)

theorem keepsText_isDecoded : KeepsText isDecoded := by
  intro e he
  obtain ⟨hkey, hkind⟩ := Prod.mk.inj (not_not.mp (of_decide_eq_false he))
  refine ⟨hkind, ?_⟩
  rw [hkey]
  decide

theorem singleByteKey_ne_printScreen : ∀ {c : BitVec 8}, SingleByteKey c →
    ps2KbdMappingScancodeSet1ToKeycode c ≠ .keyPrintScreen := by
  decide +kernel

/-- One sequence is decoded as its event, unless it is one that is dropped. -/
theorem filter_keyEvent (seq : KeySequence) :
    ([seq.keyEvent].filter isDecoded).map KeyEvent.label = seq.decoded := by
  have hkept : seq.keyEvent.label ≠ (.keyPrintScreen, .released) →
      ([seq.keyEvent].filter isDecoded).map KeyEvent.label
        = [(seq.keycode, seq.eventType .released)] := by
    intro h
    have hdecoded : isDecoded seq.keyEvent = true := decide_eq_true h
    rw [List.filter_cons_of_pos hdecoded, List.filter_nil]
    rfl
  cases seq with
  | printScreenBreakCode => rfl
  | breakCode c h => exact hkept fun heq => singleByteKey_ne_printScreen h (Prod.mk.inj heq).1
  | extendedBreakCode c h => exact hkept fun heq => h.2.2 (Prod.mk.inj heq).1
  | pauseCode => exact hkept (by decide)
  | makeCode c h | extendedMakeCode c h => exact hkept fun heq => by cases (Prod.mk.inj heq).2
  | printScreenMakeCode => exact hkept (by decide)

/-- **The events of sequences**, as the driver decodes them. -/
theorem filter_map_keyEvent (seqs : List KeySequence) :
    ((seqs.map keyEvent).filter isDecoded).map KeyEvent.label = seqs.flatMap decoded := by
  induction seqs with
  | nil => rfl
  | cons seq seqs ih =>
    rw [List.map_cons, ← List.singleton_append, List.filter_append, List.map_append,
      filter_keyEvent, ih, List.flatMap_cons]

end KeySequence
