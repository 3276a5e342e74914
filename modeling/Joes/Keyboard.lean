import Joes.CallRun
import Joes.RingQueue

/-!
# Key events and their buffer

`keyboard.c` keeps the key events that were not read yet in a ring buffer of
`KBD_KEY_EVENT_BUFFER_SIZE` slots. The keyboard's interrupt appends to it, the
timer's takes from it, and when nobody takes the oldest events are overwritten.

The buffer is a ring in the sense of `RingQueue`, with its two counters in 8
bits. `kbdBuffer_refines` compares it with what it is for, a queue of bounded
length: whatever the order of the calls, both return the same.
-/

/-- `key_code_t`. -/
inductive KeyCode where
  | keyUnknown | keyEsc | keyF1 | keyF2 | keyF3 | keyF4 | keyF5 | keyF6 | keyF7 | keyF8 | keyF9
  | keyF10 | keyF11 | keyF12 | keyCircumflex | key1 | key2 | key3 | key4 | key5 | key6 | key7
  | key8 | key9 | key0 | keyß | keyBackTick | keyBackspace | keyTab | keyQ | keyW | keyE | keyR
  | keyT | keyZ | keyU | keyI | keyO | keyP | keyÜ | keyPlus | keyEnter | keyCapsLock | keyA | keyS
  | keyD | keyF | keyG | keyH | keyJ | keyK | keyL | keyÖ | keyÄ | keyHashtag | keyLshift
  | keyLessThen | keyY | keyX | keyC | keyV | keyB | keyN | keyM | keyComma | keyPeriod | keyMinus
  | keyRshift | keyLstrg | keyLsuper | keyAlt | keySpace | keyAltgr | keyRsuper | keyMenu
  | keyRstrg | keyUp | keyLeft | keyDown | keyRight | keyPrintScreen | keyScrollLock | keyPause
  | keyInsert | keyPos1 | keyPageUp | keyDel | keyEnd | keyPageDown | keyNumLock | keyKeypadSlash
  | keyKeypadAsterisk | keyKeypadMinus | keyKeypad7 | keyKeypad8 | keyKeypad9 | keyKeypadPlus
  | keyKeypad4 | keyKeypad5 | keyKeypad6 | keyKeypad1 | keyKeypad2 | keyKeypad3 | keyKeypadEnter
  | keyKeypad0 | keyKeypadDelete | keyMultimediaPreviousTrack | keyMultimediaNextTrack
  | keyMultimediaMute | keyMultimediaCalculator | keyMultimediaPlay | keyMultimediaStop
  | keyMultimediaVolumeDown | keyMultimediaVolumeUp | keyMultimediaWwwHome | keyMultimediaWwwSearch
  | keyMultimediaFavorites | keyMultimediaWwwRefresh | keyMultimediaWwwStop
  | keyMultimediaWwwForward | keyMultimediaWwwBack | keyMultimediaMyComputer | keyMultimediaEmail
  | keyMultimediaMediaSelect | keyPower | keySleep | keyWake
  deriving DecidableEq, Repr

/-- `key_event_type_t`. -/
inductive KeyEventType where
  | undefined | pressed | released
  deriving DecidableEq, Repr

/-- `struct key_event_t`. -/
structure KeyEvent where
  keycode : KeyCode
  pressed : KeyEventType
  modifiers : BitVec 16
  deriving DecidableEq, Repr

/-- The zero-initialised event, `{0}`. -/
def KeyEvent.zero : KeyEvent := ⟨.keyUnknown, .undefined, 0#16⟩

/-- `kbd_error_codes_t`. -/
inductive KbdErrorCode where
  | keyEventBufferOk | keyEventBufferEmpty | keyEventBufferFull
  deriving DecidableEq, Repr

/-- `KBD_KEY_EVENT_BUFFER_SIZE`. -/
def kbdKeyEventBufferSize : ℕ := 32

/-- The variables `kbd_key_event_buffer`, `kbd_key_event_buffer_capacity`,
`kbd_key_event_buffer_size` and `kbd_key_event_buffer_front`. -/
structure KeyEventBuffer where
  buffer : ℕ → KeyEvent
  capacity : BitVec 8
  size : BitVec 8
  front : BitVec 8

namespace KeyEventBuffer

/-- The initial values of the variables. -/
def initial : KeyEventBuffer where
  buffer _ := .zero
  capacity := BitVec.ofNat 8 kbdKeyEventBufferSize
  size := 0#8
  front := 0#8

/-- The variable `rear` of `kbd_append_key_event_to_buffer`: the slot the next
event is stored in. -/
def rear (b : KeyEventBuffer) : BitVec 8 :=
  BitVec.ofNat 8 ((b.front.toNat + b.size.toNat) % kbdKeyEventBufferSize)

/-- `(kbd_key_event_buffer_front + 1) % KBD_KEY_EVENT_BUFFER_SIZE`. -/
def nextFront (b : KeyEventBuffer) : BitVec 8 :=
  BitVec.ofNat 8 ((b.front.toNat + 1) % kbdKeyEventBufferSize)

end KeyEventBuffer

/-- `kbd_append_key_event_to_buffer`. -/
def kbdAppendKeyEventToBuffer (keyEvent : KeyEvent) (b : KeyEventBuffer) : KeyEventBuffer :=
  let b' := { b with buffer := Function.update b.buffer b.rear.toNat keyEvent }
  if b'.size < b'.capacity then { b' with size := b'.size + 1#8 }
  else { b' with front := b'.nextFront }

/-- `kbd_get_key_event_from_buffer`, with `*dest` as an argument and a second
result. -/
def kbdGetKeyEventFromBuffer (dest : KeyEvent) (b : KeyEventBuffer) :
    KbdErrorCode × KeyEvent × KeyEventBuffer :=
  if b.size ≤ 0#8 then (.keyEventBufferEmpty, dest, b)
  else
    (.keyEventBufferOk, b.buffer b.front.toNat,
      { b with front := b.nextFront, size := b.size - 1#8 })

/-! ## A queue of bounded length -/

/-- A call of the buffer's interface. -/
inductive KeyBufferCall where
  /-- `kbd_append_key_event_to_buffer` -/
  | append (keyEvent : KeyEvent)
  /-- `kbd_get_key_event_from_buffer`, with what `*dest` holds before. -/
  | get (dest : KeyEvent)

/-- What a call returns: nothing, or the error code and what `*dest` holds
after. -/
abbrev KeyBufferResult := Option (KbdErrorCode × KeyEvent)

/-- A call on the buffer. -/
def KeyEventBuffer.call (b : KeyEventBuffer) : KeyBufferCall → KeyBufferResult × KeyEventBuffer
  | .append keyEvent => (none, kbdAppendKeyEventToBuffer keyEvent b)
  | .get dest =>
    let r := kbdGetKeyEventFromBuffer dest b
    (some (r.1, r.2.1), r.2.2)

/-- **A call on the queue**: appending to a full one discards its oldest event,
and only an event there is can be taken. -/
def queueCall (q : List KeyEvent) : KeyBufferCall → KeyBufferResult × List KeyEvent
  | .append keyEvent => (none, boundedAppend kbdKeyEventBufferSize q keyEvent)
  | .get dest =>
    match q with
    | [] => (some (.keyEventBufferEmpty, dest), [])
    | keyEvent :: q => (some (.keyEventBufferOk, keyEvent), q)

namespace KeyEventBuffer

variable {b : KeyEventBuffer} {q : List KeyEvent}

/-- **The buffer holds the queue**: the counters are in range, and the slots
from the front on are the queue's events. -/
structure Holds (b : KeyEventBuffer) (q : List KeyEvent) : Prop where
  capacity : b.capacity.toNat = kbdKeyEventBufferSize
  size : b.size.toNat ≤ kbdKeyEventBufferSize
  front : b.front.toNat < kbdKeyEventBufferSize
  contents : ringContents kbdKeyEventBufferSize b.buffer b.front.toNat b.size.toNat = q

theorem holds_initial : initial.Holds [] := ⟨rfl, by decide, by decide, rfl⟩

/-- A slot number fits its 8 bits. -/
theorem toNat_slot (i : ℕ) :
    (BitVec.ofNat 8 (i % kbdKeyEventBufferSize)).toNat = i % kbdKeyEventBufferSize := by
  have hlt : i % kbdKeyEventBufferSize < 32 := Nat.mod_lt _ (by decide)
  rw [BitVec.toNat_ofNat, Nat.mod_eq_of_lt (by omega)]

/-- The slots that are accessed are slots of the buffer. -/
theorem rear_lt (b : KeyEventBuffer) : b.rear.toNat < kbdKeyEventBufferSize := by
  rw [rear, toNat_slot]
  exact Nat.mod_lt _ (by decide)

theorem nextFront_lt (b : KeyEventBuffer) : b.nextFront.toNat < kbdKeyEventBufferSize := by
  rw [nextFront, toNat_slot]
  exact Nat.mod_lt _ (by decide)

/-- **Appending to the buffer** appends to the queue. -/
theorem Holds.append (h : b.Holds q) (keyEvent : KeyEvent) :
    (kbdAppendKeyEventToBuffer keyEvent b).Holds
      (boundedAppend kbdKeyEventBufferSize q keyEvent) := by
  have hcap : b.capacity.toNat = 32 := h.capacity
  have hsize : b.size.toNat ≤ 32 := h.size
  rw [← h.contents, boundedAppend_ringContents (by decide) h.size]
  unfold kbdAppendKeyEventToBuffer
  dsimp only
  have hiff : b.size < b.capacity ↔ b.size.toNat < kbdKeyEventBufferSize := by
    rw [BitVec.lt_def, h.capacity]
  by_cases hlt : b.size < b.capacity
  · have hlt' := hiff.mp hlt
    have hsucc : (b.size + 1#8).toNat = b.size.toNat + 1 := by
      rw [BitVec.toNat_add]
      exact Nat.mod_eq_of_lt (show b.size.toNat + 1 < 256 by omega)
    rw [if_pos hlt, if_pos hlt']
    refine ⟨h.capacity, ?_, h.front, ?_⟩
    · show (b.size + 1#8).toNat ≤ _
      rw [hsucc]
      exact hlt'
    · show ringContents _ (Function.update b.buffer b.rear.toNat keyEvent) _
        (b.size + 1#8).toNat = _
      rw [hsucc, rear, toNat_slot]
  · rw [if_neg hlt, if_neg fun hlt' => hlt (hiff.mpr hlt')]
    refine ⟨h.capacity, h.size, nextFront_lt b, ?_⟩
    show ringContents _ (Function.update b.buffer b.rear.toNat keyEvent)
      (BitVec.ofNat 8 ((b.front.toNat + 1) % kbdKeyEventBufferSize)).toNat b.size.toNat = _
    rw [toNat_slot, rear, toNat_slot]

/-- An empty buffer holds the empty queue, and no other does. -/
theorem Holds.size_le_zero_iff (h : b.Holds q) : b.size ≤ 0#8 ↔ q = [] := by
  have hlen := congrArg List.length h.contents
  rw [length_ringContents] at hlen
  rw [BitVec.le_def, ← List.length_eq_zero_iff, ← hlen]
  exact Nat.le_zero

/-- Taking from an empty buffer fails and changes nothing. -/
theorem Holds.get_empty (h : b.Holds []) (dest : KeyEvent) :
    kbdGetKeyEventFromBuffer dest b = (.keyEventBufferEmpty, dest, b) := by
  rw [kbdGetKeyEventFromBuffer, if_pos (h.size_le_zero_iff.mpr rfl)]

/-- **Taking from the buffer** takes the oldest event of the queue. -/
theorem Holds.get {keyEvent : KeyEvent} (h : b.Holds (keyEvent :: q)) (dest : KeyEvent) :
    ∃ b', kbdGetKeyEventFromBuffer dest b = (.keyEventBufferOk, keyEvent, b') ∧ b'.Holds q := by
  have hne : ¬ b.size ≤ 0#8 := fun hle => by cases h.size_le_zero_iff.mp hle
  have hpos : 0 < b.size.toNat := Nat.not_le.mp (by rwa [BitVec.le_def] at hne)
  have hsize : b.size.toNat ≤ 32 := h.size
  have hpred : (b.size - 1#8).toNat = b.size.toNat - 1 := by
    rw [BitVec.toNat_sub_of_le (BitVec.le_def.mpr (show (1#8).toNat ≤ _ from hpos))]
    rfl
  have hcontents := h.contents
  rw [show b.size.toNat = b.size.toNat - 1 + 1 by omega, ringContents_succ,
    Nat.mod_eq_of_lt h.front] at hcontents
  obtain ⟨rfl, hrest⟩ := List.cons.inj hcontents
  refine ⟨{ b with front := b.nextFront, size := b.size - 1#8 },
    by rw [kbdGetKeyEventFromBuffer, if_neg hne], h.capacity, ?_, nextFront_lt b, ?_⟩
  · show (b.size - 1#8).toNat ≤ _
    rw [hpred]
    exact (Nat.sub_le _ _).trans h.size
  · show ringContents _ b.buffer b.nextFront.toNat (b.size - 1#8).toNat = _
    rw [hpred, nextFront, toNat_slot, hrest]

/-- **The step of the simulation**: every call returns what it returns on the
queue. -/
theorem Holds.call (h : b.Holds q) (c : KeyBufferCall) :
    (b.call c).1 = (queueCall q c).1 ∧ (b.call c).2.Holds (queueCall q c).2 := by
  cases c with
  | append keyEvent => exact ⟨rfl, h.append keyEvent⟩
  | get dest =>
    have hcall : b.call (.get dest) = (some ((kbdGetKeyEventFromBuffer dest b).1,
      (kbdGetKeyEventFromBuffer dest b).2.1), (kbdGetKeyEventFromBuffer dest b).2.2) := rfl
    rw [hcall]
    cases q with
    | nil =>
      rw [h.get_empty dest]
      exact ⟨rfl, h⟩
    | cons keyEvent q =>
      obtain ⟨b', hget, hb'⟩ := h.get dest
      rw [hget]
      exact ⟨rfl, hb'⟩

end KeyEventBuffer

/-- **The key event buffer is a bounded queue.** For every list of calls from
the initial state, the results are those of a queue of capacity
`KBD_KEY_EVENT_BUFFER_SIZE` which discards its oldest event when appended to
while full. In the state reached, taking from an empty queue fails and changes
neither the buffer nor `*dest`, and the slots that the next call accesses are
slots of the buffer. -/
theorem kbdBuffer_refines (calls : List KeyBufferCall) :
    let b := (outputs KeyEventBuffer.call .initial calls).2
    let q := (outputs queueCall [] calls).2
    (outputs KeyEventBuffer.call .initial calls).1 = (outputs queueCall [] calls).1 ∧
      (q = [] → ∀ dest, kbdGetKeyEventFromBuffer dest b = (.keyEventBufferEmpty, dest, b)) ∧
      b.rear.toNat < kbdKeyEventBufferSize ∧ b.front.toNat < kbdKeyEventBufferSize := by
  intro b q
  obtain ⟨hout, hholds⟩ := outputs_eq (R := KeyEventBuffer.Holds)
    (fun _ _ c h => h.call c) KeyEventBuffer.holds_initial calls
  refine ⟨hout, fun hq dest => ?_, b.rear_lt, hholds.front⟩
  have hempty : b.Holds [] := hq ▸ hholds
  exact hempty.get_empty dest
