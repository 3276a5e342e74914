import Joes.Ps2Modifiers
import Mathlib.Data.List.ReduceOption

/-!
# Scan codes

The keyboard sends scan code set 1: one byte for most keys, a prefix `E0` and a
byte for the others, and longer sequences for Print Screen and Pause. The driver
reads them byte by byte. `ps2KbdSwitchState` follows the prefixes, and a byte
that completes a scan code becomes a key event, whose key is looked up with the
prefix as a seventh bit.

`KeySequence` is the keyboard's side: the complete sequences, with the key and
the kind of event each stands for.

Every sequence begins and ends in the normal state, so a list of them is decoded one by
one (`KeySequence.decode_flatMap`), and what is left is a single sequence
(`KeySequence.decode_bytes`). Within it each byte but the last only moves the state, and
the last one completes a scan code. The exception is the break of Print Screen, whose
last byte the driver does not take for an end, though it goes back to the normal state
with it. The key and the kind of the event come from the byte without and with its
highest bit, which is decided for all codes of keys.

A sequence is at most one event. So a list of sequences that gives as many events as it
has sequences has none that gives less, and the events are the expected ones exactly if
each sequence by itself is decoded as expected (`flatMap_eq_map_iff`).
-/

/-- `ps2_kbd_scancode_set_t`. -/
inductive Ps2KbdScancodeSet where
  | getCurrentScancodeSet | scancodeSet1 | scancodeSet2 | scancodeSet3
  deriving DecidableEq, Repr

/-- The byte that selects a scan code set. -/
def Ps2KbdScancodeSet.byte : Ps2KbdScancodeSet → BitVec 8
  | getCurrentScancodeSet => 0#8
  | scancodeSet1 => 1#8
  | scancodeSet2 => 2#8
  | scancodeSet3 => 3#8

/-- `ps2_kbd_state_t`. -/
inductive Ps2KbdState where
  | uninitialized | normal | prefixE0 | prefixE02A | prefixE02AE0 | prefixE0B7 | prefixE0B7E0
  | prefixE1 | prefixE11D | prefixE11D45 | prefixE11D45E1 | prefixE11D45E19D | invalid
  deriving DecidableEq, Repr

/-- The entries of `ps2_kbd_mapping_scancode_set_1_to_keycode`. -/
def ps2KbdMappingEntries : List (BitVec 8 × KeyCode) :=
  [(0x01#8, .keyEsc), (0x02#8, .key1), (0x03#8, .key2), (0x04#8, .key3), (0x05#8, .key4),
   (0x06#8, .key5), (0x07#8, .key6), (0x08#8, .key7), (0x09#8, .key8), (0x0a#8, .key9),
   (0x0b#8, .key0), (0x0c#8, .keyß), (0x0d#8, .keyBackTick), (0x0e#8, .keyBackspace),
   (0x0f#8, .keyTab), (0x10#8, .keyQ), (0x11#8, .keyW), (0x12#8, .keyE), (0x13#8, .keyR),
   (0x14#8, .keyT), (0x15#8, .keyZ), (0x16#8, .keyU), (0x17#8, .keyI), (0x18#8, .keyO),
   (0x19#8, .keyP), (0x1a#8, .keyÜ), (0x1b#8, .keyPlus), (0x1c#8, .keyEnter), (0x1d#8, .keyLstrg),
   (0x1e#8, .keyA), (0x1f#8, .keyS), (0x20#8, .keyD), (0x21#8, .keyF), (0x22#8, .keyG),
   (0x23#8, .keyH), (0x24#8, .keyJ), (0x25#8, .keyK), (0x26#8, .keyL), (0x27#8, .keyÖ),
   (0x28#8, .keyÄ), (0x29#8, .keyCircumflex), (0x2a#8, .keyLshift), (0x2b#8, .keyHashtag),
   (0x2c#8, .keyY), (0x2d#8, .keyX), (0x2e#8, .keyC), (0x2f#8, .keyV), (0x30#8, .keyB),
   (0x31#8, .keyN), (0x32#8, .keyM), (0x33#8, .keyComma), (0x34#8, .keyPeriod), (0x35#8, .keyMinus),
   (0x36#8, .keyRshift), (0x37#8, .keyKeypadAsterisk), (0x38#8, .keyAlt), (0x39#8, .keySpace),
   (0x3a#8, .keyCapsLock), (0x3b#8, .keyF1), (0x3c#8, .keyF2), (0x3d#8, .keyF3), (0x3e#8, .keyF4),
   (0x3f#8, .keyF5), (0x40#8, .keyF6), (0x41#8, .keyF7), (0x42#8, .keyF8), (0x43#8, .keyF9),
   (0x44#8, .keyF10), (0x45#8, .keyNumLock), (0x46#8, .keyScrollLock), (0x47#8, .keyKeypad7),
   (0x48#8, .keyKeypad8), (0x49#8, .keyKeypad9), (0x4a#8, .keyKeypadMinus), (0x4b#8, .keyKeypad4),
   (0x4c#8, .keyKeypad5), (0x4d#8, .keyKeypad6), (0x4e#8, .keyKeypadPlus), (0x4f#8, .keyKeypad1),
   (0x50#8, .keyKeypad2), (0x51#8, .keyKeypad3), (0x52#8, .keyKeypad0), (0x53#8, .keyKeypadDelete),
   (0x57#8, .keyF11), (0x56#8, .keyLessThen), (0x58#8, .keyF12),
   (0x90#8, .keyMultimediaPreviousTrack), (0x99#8, .keyMultimediaNextTrack),
   (0x9c#8, .keyKeypadEnter), (0x9d#8, .keyRstrg), (0xa0#8, .keyMultimediaMute),
   (0xa1#8, .keyMultimediaCalculator), (0xa2#8, .keyMultimediaPlay), (0xa4#8, .keyMultimediaStop),
   (0xae#8, .keyMultimediaVolumeDown), (0xb0#8, .keyMultimediaVolumeUp),
   (0xb2#8, .keyMultimediaWwwHome), (0xb5#8, .keyKeypadSlash), (0xb8#8, .keyAltgr),
   (0xc7#8, .keyPos1), (0xc8#8, .keyUp), (0xc9#8, .keyPageUp), (0xcb#8, .keyLeft),
   (0xcd#8, .keyRight), (0xcf#8, .keyEnd), (0xd0#8, .keyDown), (0xd1#8, .keyPageDown),
   (0xd2#8, .keyInsert), (0xd3#8, .keyDel), (0xdb#8, .keyLsuper), (0xdc#8, .keyRsuper),
   (0xdd#8, .keyMenu), (0xde#8, .keyPower), (0xdf#8, .keySleep), (0xe3#8, .keyWake),
   (0xe5#8, .keyMultimediaWwwSearch), (0xe6#8, .keyMultimediaFavorites),
   (0xe7#8, .keyMultimediaWwwRefresh), (0xe8#8, .keyMultimediaWwwStop),
   (0xe9#8, .keyMultimediaWwwForward), (0xea#8, .keyMultimediaWwwBack),
   (0xeb#8, .keyMultimediaMyComputer), (0xec#8, .keyMultimediaEmail),
   (0xed#8, .keyMultimediaMediaSelect), (0xb7#8, .keyPrintScreen), (0xaa#8, .keyPrintScreen),
   (0xc5#8, .keyPause)]

/-- `ps2_kbd_mapping_scancode_set_1_to_keycode`, in which every other element is
`KEY_UNKNOWN`. -/
def ps2KbdMappingScancodeSet1ToKeycode (scancode : BitVec 8) : KeyCode :=
  (ps2KbdMappingEntries.lookup scancode).getD .keyUnknown

/-- `ps2_kbd_scancode_to_keycode`. -/
def ps2KbdScancodeToKeycode (scancode : BitVec 8) (state : Ps2KbdState)
    (scancodeSet : Ps2KbdScancodeSet) : KeyCode :=
  match scancodeSet with
  | .scancodeSet1 =>
    let scancode := scancode &&& ~~~(1#8 <<< 7)
    let scancode := if state ≠ .normal then scancode ||| 1#8 <<< 7 else scancode
    ps2KbdMappingScancodeSet1ToKeycode scancode
  | _ => .keyUnknown

/-- The logic for switching states in `ps2_kbd_irq_callback`: the state to return
in, or nothing where the byte completes a scan code. -/
def ps2KbdSwitchState (state : Ps2KbdState) (scancodeRaw : BitVec 8) : Option Ps2KbdState :=
  match state with
  | .normal =>
    if scancodeRaw = 0xe0#8 then some .prefixE0
    else if scancodeRaw = 0xe1#8 then some .prefixE1
    else none
  | .prefixE0 =>
    if scancodeRaw = 0x2a#8 then some .prefixE02A
    else if scancodeRaw = 0xb7#8 then some .prefixE0B7
    else none
  | .prefixE02A => if scancodeRaw = 0xe0#8 then some .prefixE02AE0 else some .invalid
  | .prefixE02AE0 => if scancodeRaw ≠ 0x37#8 then some .normal else none
  | .prefixE0B7 => if scancodeRaw = 0xe0#8 then some .prefixE02AE0 else some .invalid
  | .prefixE0B7E0 => if scancodeRaw ≠ 0xaa#8 then some .normal else none
  | .prefixE1 => if scancodeRaw = 0x1d#8 then some .prefixE11D else some .invalid
  | .prefixE11D => if scancodeRaw = 0x45#8 then some .prefixE11D45 else some .invalid
  | .prefixE11D45 => if scancodeRaw = 0xe1#8 then some .prefixE11D45E1 else some .invalid
  | .prefixE11D45E1 => if scancodeRaw = 0x9d#8 then some .prefixE11D45E19D else some .invalid
  | .prefixE11D45E19D => if scancodeRaw ≠ 0xc5#8 then some .normal else none
  | .invalid =>
    if scancodeRaw = 0x37#8 ∨ scancodeRaw = 0xaa#8 ∨ scancodeRaw = 0xc5#8 then some .normal
    else some .invalid
  -- The default branch logs that it should not be reached, and goes on.
  | .uninitialized => none

/-- The variables of the keyboard driver, those of `ps2_kbd_set_modifiers` and
of the key event buffer among them. -/
structure Ps2Kbd where
  state : Ps2KbdState
  port : BitVec 8
  modifiers : Ps2Modifiers
  keyEvents : KeyEventBuffer

/-- Their initial values. -/
def Ps2Kbd.initial : Ps2Kbd := ⟨.uninitialized, 0#8, .initial, .initial⟩

/-- The key event of a byte that completes a scan code, before its modifiers are
set. -/
def ps2KbdKeyEvent (state : Ps2KbdState) (scancodeRaw : BitVec 8) : KeyEvent :=
  { KeyEvent.zero with
    pressed := if scancodeRaw &&& 1#8 <<< 7 = 0#8 then .pressed else .released
    keycode := ps2KbdScancodeToKeycode scancodeRaw state .scancodeSet1 }

/-- `ps2_kbd_irq_callback` from the byte it received on, with the key event it
appends, if any, as a result. -/
def ps2KbdReceive (kbd : Ps2Kbd) (scancodeRaw : BitVec 8) : Option KeyEvent × Ps2Kbd :=
  match ps2KbdSwitchState kbd.state scancodeRaw with
  | some state => (none, { kbd with state := state })
  | none =>
    let keyEvent := ps2KbdKeyEvent kbd.state scancodeRaw
    let r := ps2KbdSetModifiers keyEvent kbd.modifiers
    (some r.1,
      { kbd with
        modifiers := r.2
        keyEvents := kbdAppendKeyEventToBuffer r.1 kbd.keyEvents
        state := .normal })

/-! ## What the keyboard sends -/

/-- The codes of the keys of one byte. -/
def SingleByteKey (c : BitVec 8) : Prop := 0x01#8 ≤ c ∧ c ≤ 0x58#8

/-- The codes of the keys with the prefix `E0`: those with an entry in the table,
Print Screen apart. -/
def ExtendedKey (c : BitVec 8) : Prop :=
  c < 0x80#8 ∧ ps2KbdMappingScancodeSet1ToKeycode (c ||| 0x80#8) ≠ .keyUnknown ∧
    ps2KbdMappingScancodeSet1ToKeycode (c ||| 0x80#8) ≠ .keyPrintScreen

instance : DecidablePred SingleByteKey := fun _ => inferInstanceAs (Decidable (_ ∧ _))

instance : DecidablePred ExtendedKey := fun _ => inferInstanceAs (Decidable (_ ∧ _))

/-- **A complete sequence** of scan code set 1. -/
inductive KeySequence where
  | makeCode (c : BitVec 8) (h : SingleByteKey c)
  | breakCode (c : BitVec 8) (h : SingleByteKey c)
  | extendedMakeCode (c : BitVec 8) (h : ExtendedKey c)
  | extendedBreakCode (c : BitVec 8) (h : ExtendedKey c)
  | printScreenMakeCode
  | printScreenBreakCode
  | pauseCode

namespace KeySequence

/-- The bytes of a sequence. -/
def bytes : KeySequence → List (BitVec 8)
  | makeCode c _ => [c]
  | breakCode c _ => [c ||| 0x80#8]
  | extendedMakeCode c _ => [0xe0#8, c]
  | extendedBreakCode c _ => [0xe0#8, c ||| 0x80#8]
  | printScreenMakeCode => [0xe0#8, 0x2a#8, 0xe0#8, 0x37#8]
  | printScreenBreakCode => [0xe0#8, 0xb7#8, 0xe0#8, 0xaa#8]
  | pauseCode => [0xe1#8, 0x1d#8, 0x45#8, 0xe1#8, 0x9d#8, 0xc5#8]

/-- The key a sequence is of. -/
def keycode : KeySequence → KeyCode
  | makeCode c _ | breakCode c _ => ps2KbdMappingScancodeSet1ToKeycode c
  | extendedMakeCode c _ | extendedBreakCode c _ =>
    ps2KbdMappingScancodeSet1ToKeycode (c ||| 0x80#8)
  | printScreenMakeCode | printScreenBreakCode => .keyPrintScreen
  | pauseCode => .keyPause

/-- The kind of event a sequence stands for. Pause has one sequence for the press
and the release together, so its kind is left open. -/
def eventType (pauseType : KeyEventType) : KeySequence → KeyEventType
  | makeCode .. | extendedMakeCode .. | printScreenMakeCode => .pressed
  | breakCode .. | extendedBreakCode .. | printScreenBreakCode => .released
  | pauseCode => pauseType

end KeySequence

/-! ## What the driver makes of it -/

variable {kbd : Ps2Kbd} {c : BitVec 8}

/-- The events appended while a list of bytes is received, with the driver's
variables after it. -/
def ps2KbdDecode (kbd : Ps2Kbd) (scancodes : List (BitVec 8)) : List KeyEvent × Ps2Kbd :=
  ((outputs ps2KbdReceive kbd scancodes).1.reduceOption,
    (outputs ps2KbdReceive kbd scancodes).2)

theorem ps2KbdDecode_append (l₁ l₂ : List (BitVec 8)) :
    ps2KbdDecode kbd (l₁ ++ l₂) =
      ((ps2KbdDecode kbd l₁).1 ++ (ps2KbdDecode (ps2KbdDecode kbd l₁).2 l₂).1,
        (ps2KbdDecode (ps2KbdDecode kbd l₁).2 l₂).2) := by
  unfold ps2KbdDecode
  rw [outputs_append, List.reduceOption_append]

theorem ps2KbdDecode_cons (l : List (BitVec 8)) :
    ps2KbdDecode kbd (c :: l) =
      ((ps2KbdReceive kbd c).1.toList ++ (ps2KbdDecode (ps2KbdReceive kbd c).2 l).1,
        (ps2KbdDecode (ps2KbdReceive kbd c).2 l).2) := by
  unfold ps2KbdDecode
  rw [outputs]
  dsimp only
  cases (ps2KbdReceive kbd c).1 with
  | none => rw [List.reduceOption_cons_of_none]; rfl
  | some keyEvent => rw [List.reduceOption_cons_of_some]; rfl

/-- A byte that goes on with a scan code only moves the state. -/
theorem ps2KbdDecode_cons_of_some {state : Ps2KbdState} {l : List (BitVec 8)}
    (h : ps2KbdSwitchState kbd.state c = some state) :
    ps2KbdDecode kbd (c :: l) = ps2KbdDecode { kbd with state := state } l := by
  have hreceive : ps2KbdReceive kbd c = (none, { kbd with state := state }) := by
    rw [ps2KbdReceive, h]
  unfold ps2KbdDecode
  rw [outputs, hreceive]
  rfl

/-- The key and the kind of an event: what it says without the modifiers. -/
def KeyEvent.label (e : KeyEvent) : KeyCode × KeyEventType := (e.keycode, e.pressed)

/-- Setting the modifiers leaves the rest of the event. -/
theorem label_setModifiers {e : KeyEvent} {m : Ps2Modifiers} :
    (ps2KbdSetModifiers e m).1.label = e.label := by
  unfold ps2KbdSetModifiers
  split <;> first | rfl | (split <;> rfl)

/-- A byte that completes a scan code is one event, and the driver is back in the
normal state. -/
theorem ps2KbdDecode_of_none (kbd : Ps2Kbd) (h : ps2KbdSwitchState kbd.state c = none) :
    (ps2KbdDecode kbd [c]).1.map KeyEvent.label = [(ps2KbdKeyEvent kbd.state c).label] ∧
      (ps2KbdDecode kbd [c]).2.state = .normal := by
  have hreceive : ps2KbdDecode kbd [c] =
      let r := ps2KbdSetModifiers (ps2KbdKeyEvent kbd.state c) kbd.modifiers
      ([r.1], { kbd with
        modifiers := r.2
        keyEvents := kbdAppendKeyEventToBuffer r.1 kbd.keyEvents
        state := .normal }) := by
    unfold ps2KbdDecode
    rw [outputs, ps2KbdReceive, h]
    rfl
  rw [hreceive]
  exact ⟨congrArg (fun x => [x]) label_setModifiers, rfl⟩

/-! ### The codes -/

theorem and_compl_of_lt : ∀ {c : BitVec 8}, c < 0x80#8 → c &&& ~~~(1#8 <<< 7) = c := by
  decide +kernel

theorem or_and_compl_of_lt :
    ∀ {c : BitVec 8}, c < 0x80#8 → (c ||| 0x80#8) &&& ~~~(1#8 <<< 7) = c := by
  decide +kernel

theorem and_of_lt : ∀ {c : BitVec 8}, c < 0x80#8 → c &&& 1#8 <<< 7 = 0#8 := by
  decide +kernel

theorem or_and_ne_zero : ∀ c : BitVec 8, (c ||| 0x80#8) &&& 1#8 <<< 7 ≠ 0#8 := by
  decide +kernel

theorem SingleByteKey.lt : ∀ {c : BitVec 8}, SingleByteKey c → c < 0x80#8 := by
  decide +kernel

theorem SingleByteKey.or_lt : ∀ {c : BitVec 8}, SingleByteKey c → c ||| 0x80#8 < 0xe0#8 := by
  decide +kernel

/-- The label of the event of a byte without the seventh bit. -/
theorem label_keyEvent {state : Ps2KbdState} (h : c < 0x80#8) :
    (ps2KbdKeyEvent state c).label =
      (ps2KbdMappingScancodeSet1ToKeycode (if state ≠ .normal then c ||| 0x80#8 else c),
        .pressed) := by
  unfold ps2KbdKeyEvent ps2KbdScancodeToKeycode KeyEvent.label
  dsimp only
  rw [and_of_lt h, and_compl_of_lt h, if_pos rfl]
  rfl

/-- The label of the event of the same byte with it. -/
theorem label_keyEvent_or {state : Ps2KbdState} (h : c < 0x80#8) :
    (ps2KbdKeyEvent state (c ||| 0x80#8)).label =
      (ps2KbdMappingScancodeSet1ToKeycode (if state ≠ .normal then c ||| 0x80#8 else c),
        .released) := by
  unfold ps2KbdKeyEvent ps2KbdScancodeToKeycode KeyEvent.label
  dsimp only
  rw [or_and_compl_of_lt h, if_neg (or_and_ne_zero c)]
  rfl

/-- A byte below the prefixes completes a scan code in the normal state. -/
theorem switchState_normal (h : c < 0xe0#8) : ps2KbdSwitchState .normal c = none := by
  unfold ps2KbdSwitchState
  rw [if_neg, if_neg]
  · rintro rfl
    exact absurd h (by decide)
  · rintro rfl
    exact absurd h (by decide)

/-- After the prefix, the code of a key completes it, with the seventh bit and
without. -/
theorem ExtendedKey.switchState (h : ExtendedKey c) :
    ps2KbdSwitchState .prefixE0 c = none ∧ ps2KbdSwitchState .prefixE0 (c ||| 0x80#8) = none := by
  have hshift : c ≠ 0x2a#8 := by
    rintro rfl
    exact absurd h (by decide)
  have hprint : c ||| 0x80#8 ≠ 0xb7#8 := fun heq => absurd h.2.2 (by rw [heq]; decide)
  have hbit : c ≠ 0xb7#8 := by
    rintro rfl
    exact absurd h.1 (by decide)
  have hbit' : c ||| 0x80#8 ≠ 0x2a#8 := fun heq => by
    have hne := or_and_ne_zero c
    rw [heq] at hne
    exact absurd hne (by decide)
  exact ⟨by rw [ps2KbdSwitchState, if_neg hshift, if_neg hbit],
    by rw [ps2KbdSwitchState, if_neg hbit', if_neg hprint]⟩

/-! ### The sequences -/

namespace KeySequence

/-- **What the driver makes of a sequence**: one event, except for the break of
Print Screen, of which it makes none. Its event for Pause is a release. -/
def decoded : KeySequence → List (KeyCode × KeyEventType)
  | printScreenBreakCode => []
  | seq => [(seq.keycode, seq.eventType .released)]

/-- **A sequence** that starts in the normal state ends there. -/
theorem decode_bytes (hstate : kbd.state = .normal) (seq : KeySequence) :
    (ps2KbdDecode kbd seq.bytes).1.map KeyEvent.label = seq.decoded ∧
      (ps2KbdDecode kbd seq.bytes).2.state = .normal := by
  cases seq with
  | makeCode c h =>
    have hnone : ps2KbdSwitchState kbd.state c = none := by
      rw [hstate]
      exact switchState_normal (BitVec.lt_trans h.lt (show 0x80#8 < 0xe0#8 by decide))
    obtain ⟨hlabel, hnormal⟩ := ps2KbdDecode_of_none kbd hnone
    refine ⟨hlabel.trans ?_, hnormal⟩
    rw [label_keyEvent h.lt, hstate]
    rfl
  | breakCode c h =>
    have hnone : ps2KbdSwitchState kbd.state (c ||| 0x80#8) = none := by
      rw [hstate]
      exact switchState_normal h.or_lt
    obtain ⟨hlabel, hnormal⟩ := ps2KbdDecode_of_none kbd hnone
    refine ⟨hlabel.trans ?_, hnormal⟩
    rw [label_keyEvent_or h.lt, hstate]
    rfl
  | extendedMakeCode c h =>
    have hprefix : ps2KbdSwitchState kbd.state 0xe0#8 = some .prefixE0 := by rw [hstate]; rfl
    rw [bytes, ps2KbdDecode_cons_of_some hprefix]
    obtain ⟨hlabel, hnormal⟩ := ps2KbdDecode_of_none { kbd with state := .prefixE0 }
      h.switchState.1
    refine ⟨hlabel.trans ?_, hnormal⟩
    rw [label_keyEvent h.1]
    rfl
  | extendedBreakCode c h =>
    have hprefix : ps2KbdSwitchState kbd.state 0xe0#8 = some .prefixE0 := by rw [hstate]; rfl
    rw [bytes, ps2KbdDecode_cons_of_some hprefix]
    obtain ⟨hlabel, hnormal⟩ := ps2KbdDecode_of_none { kbd with state := .prefixE0 }
      h.switchState.2
    refine ⟨hlabel.trans ?_, hnormal⟩
    rw [label_keyEvent_or h.1]
    rfl
  | printScreenMakeCode =>
    have hprefix : ps2KbdSwitchState kbd.state 0xe0#8 = some .prefixE0 := by rw [hstate]; rfl
    rw [bytes, ps2KbdDecode_cons_of_some hprefix, ps2KbdDecode_cons_of_some rfl,
      ps2KbdDecode_cons_of_some rfl]
    exact ps2KbdDecode_of_none _ rfl
  | printScreenBreakCode =>
    have hprefix : ps2KbdSwitchState kbd.state 0xe0#8 = some .prefixE0 := by rw [hstate]; rfl
    rw [bytes, ps2KbdDecode_cons_of_some hprefix, ps2KbdDecode_cons_of_some rfl,
      ps2KbdDecode_cons_of_some rfl, ps2KbdDecode_cons_of_some rfl]
    exact ⟨rfl, rfl⟩
  | pauseCode =>
    have hprefix : ps2KbdSwitchState kbd.state 0xe1#8 = some .prefixE1 := by rw [hstate]; rfl
    rw [bytes, ps2KbdDecode_cons_of_some hprefix, ps2KbdDecode_cons_of_some rfl,
      ps2KbdDecode_cons_of_some rfl, ps2KbdDecode_cons_of_some rfl, ps2KbdDecode_cons_of_some rfl]
    exact ps2KbdDecode_of_none _ rfl

/-- **The run**: a list of sequences that starts in the normal state is decoded
one by one. -/
theorem decode_flatMap (hstate : kbd.state = .normal) (seqs : List KeySequence) :
    (ps2KbdDecode kbd (seqs.flatMap bytes)).1.map KeyEvent.label = seqs.flatMap decoded ∧
      (ps2KbdDecode kbd (seqs.flatMap bytes)).2.state = .normal := by
  induction seqs generalizing kbd with
  | nil => exact ⟨rfl, hstate⟩
  | cons seq seqs ih =>
    obtain ⟨hlabel, hnormal⟩ := decode_bytes hstate seq
    obtain ⟨hlabels, hend⟩ := ih hnormal
    rw [List.flatMap_cons, ps2KbdDecode_append]
    refine ⟨?_, hend⟩
    rw [List.map_append, hlabel, hlabels, List.flatMap_cons]

/-- What a sequence is to be decoded as. -/
def expected (pauseType : KeyEventType) (seq : KeySequence) : KeyCode × KeyEventType :=
  (seq.keycode, seq.eventType pauseType)

/-- One sequence is decoded as expected, unless it is the break of Print Screen,
or Pause where a press is expected. -/
theorem decoded_eq_iff {pauseType : KeyEventType} (seq : KeySequence) :
    seq.decoded = [seq.expected pauseType] ↔
      seq ≠ printScreenBreakCode ∧ (seq = pauseCode → pauseType = .released) := by
  cases seq with
  | printScreenBreakCode => exact iff_of_false (by simp [decoded]) fun h => h.1 rfl
  | pauseCode => simp [decoded, expected, eventType, eq_comm]
  | _ => simp [decoded, expected, eventType]

/-- No sequence is more than one event. -/
theorem length_decoded_le (seq : KeySequence) : seq.decoded.length ≤ 1 := by
  cases seq <;> simp [decoded]

end KeySequence

theorem length_flatMap_le {α β : Type*} {f : α → List β} (hf : ∀ a, (f a).length ≤ 1)
    (l : List α) : (l.flatMap f).length ≤ l.length := by
  induction l with
  | nil => exact le_rfl
  | cons a l ih =>
    rw [List.flatMap_cons, List.length_append, List.length_cons, Nat.add_comm l.length]
    exact Nat.add_le_add (hf a) ih

/-- Where every element gives at most one, a list that gives one each has none
that gives less: it would be too short otherwise. -/
theorem flatMap_eq_map_iff {α β : Type*} {f : α → List β} {g : α → β}
    (hf : ∀ a, (f a).length ≤ 1) (l : List α) :
    l.flatMap f = l.map g ↔ ∀ a ∈ l, f a = [g a] := by
  induction l with
  | nil => simp
  | cons a l ih =>
    rw [List.flatMap_cons, List.map_cons, List.forall_mem_cons, ← ih]
    rcases hfa : f a with _ | ⟨b, _ | ⟨b', bs⟩⟩
    · refine iff_of_false (fun h => ?_) fun h => by cases h.1
      have hlen := congrArg List.length h
      have hle := length_flatMap_le hf l
      rw [List.nil_append, List.length_cons, List.length_map] at hlen
      omega
    · simp
    · have hle := hf a
      rw [hfa] at hle
      simp at hle
