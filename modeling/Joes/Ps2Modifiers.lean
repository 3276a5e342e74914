import Joes.Keyboard
import Mathlib.Algebra.Ring.Parity
import Mathlib.Data.Int.ModEq

/-!
# Modifier flags

`ps2_kbd_set_modifiers` keeps the flags of the modifier keys from one key event
to the next. The lock keys toggle theirs when pressed, and Alt, AltGr and the
two Super keys set theirs when pressed and clear it when released. The two
Shift keys share a flag, as do the two Strg keys: a counter is to say how many
of the pair are down, and a release clears the flag when it has come to zero.

An event of another key leaves a flag as it is (`getLsbD_setModifiers_of_other`), so each
flag has a history of its own, and is compared with that of its keys by induction from
the last event on. For the keys that set and clear, the last event decides both the flag
and whether the key is held (`getLsbD_modifiersAfter_iff_held`); for those that toggle,
both are about the number of presses (`getLsbD_modifiersAfter_iff_odd`). These flags are
always right.

Those of the pairs are not. The counter is the presses less the other events, in 8 bits
(`CountedPair.count_modifiersAfter`), but a key that is held sends its press again and
again, and each time it is counted. So after a release the counter need not say whether a
key of the pair is held. Whether it does is a condition on each release that finds the
pair held (`PairCounted`), and since the flag was right before the event, it is right after
it exactly under this condition (`CountedPair.flag_concat_iff`). Along the list that gives
the condition for all its events (`ps2KbdSetModifiers_track_iff`).
-/

/-- `KBD_MODIFIER_MASK_SHIFT`. -/
def kbdModifierMaskShift : BitVec 16 := 1#16 <<< 0

/-- `KBD_MODIFIER_MASK_CAPS_LOCK`. -/
def kbdModifierMaskCapsLock : BitVec 16 := 1#16 <<< 1

/-- `KBD_MODIFIER_MASK_ALT`. -/
def kbdModifierMaskAlt : BitVec 16 := 1#16 <<< 2

/-- `KBD_MODIFIER_MASK_ALTGR`. -/
def kbdModifierMaskAltgr : BitVec 16 := 1#16 <<< 3

/-- `KBD_MODIFIER_MASK_STRG`. -/
def kbdModifierMaskStrg : BitVec 16 := 1#16 <<< 4

/-- `KBD_MODIFIER_MASK_NUM_LOCK`. -/
def kbdModifierMaskNumLock : BitVec 16 := 1#16 <<< 5

/-- `KBD_MODIFIER_MASK_SCROLL_LOCK`. -/
def kbdModifierMaskScrollLock : BitVec 16 := 1#16 <<< 6

/-- `KBD_MODIFIER_MASK_LSUPER`. -/
def kbdModifierMaskLsuper : BitVec 16 := 1#16 <<< 7

/-- `KBD_MODIFIER_MASK_RSUPER`. -/
def kbdModifierMaskRsuper : BitVec 16 := 1#16 <<< 8

/-- The `static` variables of `ps2_kbd_set_modifiers`. -/
structure Ps2Modifiers where
  modifiersOld : BitVec 16
  numShiftKeysPressed : BitVec 8
  numStrgKeysPressed : BitVec 8
  deriving DecidableEq, Repr

/-- Their initial values. -/
def Ps2Modifiers.initial : Ps2Modifiers := ⟨0#16, 0#8, 0#8⟩

/-- The tail of `ps2_kbd_set_modifiers` from the label
`APPLY_TOGGLED_MODIFIERS_MASK`. -/
def applyToggledModifiersMask (mask : BitVec 16) (e : KeyEvent) (m : Ps2Modifiers) :
    KeyEvent × Ps2Modifiers :=
  let m := if e.pressed = .pressed then { m with modifiersOld := m.modifiersOld ^^^ mask } else m
  ({ e with modifiers := m.modifiersOld }, m)

/-- The tail of `ps2_kbd_set_modifiers` from the label
`APPLY_PRESSED_RELEASED_MODIFIERS_MASK`. -/
def applyPressedReleasedModifiersMask (mask : BitVec 16) (e : KeyEvent) (m : Ps2Modifiers) :
    KeyEvent × Ps2Modifiers :=
  let m :=
    if e.pressed = .pressed then { m with modifiersOld := m.modifiersOld ||| mask }
    else { m with modifiersOld := m.modifiersOld &&& ~~~mask }
  ({ e with modifiers := m.modifiersOld }, m)

/-- `ps2_kbd_set_modifiers`, with `*key_event` as an argument and a result. -/
def ps2KbdSetModifiers (e : KeyEvent) (m : Ps2Modifiers) : KeyEvent × Ps2Modifiers :=
  match e.keycode with
  | .keyCapsLock => applyToggledModifiersMask kbdModifierMaskCapsLock e m
  | .keyNumLock => applyToggledModifiersMask kbdModifierMaskNumLock e m
  | .keyScrollLock => applyToggledModifiersMask kbdModifierMaskScrollLock e m
  | .keyLshift | .keyRshift =>
    if e.pressed = .pressed then
      applyPressedReleasedModifiersMask kbdModifierMaskShift e
        { m with numShiftKeysPressed := m.numShiftKeysPressed + 1#8 }
    else
      let m := { m with numShiftKeysPressed := m.numShiftKeysPressed - 1#8 }
      let mask := if m.numShiftKeysPressed = 0#8 then kbdModifierMaskShift else 0#16
      applyPressedReleasedModifiersMask mask e m
  | .keyLstrg | .keyRstrg =>
    if e.pressed = .pressed then
      applyPressedReleasedModifiersMask kbdModifierMaskStrg e
        { m with numStrgKeysPressed := m.numStrgKeysPressed + 1#8 }
    else
      let m := { m with numStrgKeysPressed := m.numStrgKeysPressed - 1#8 }
      let mask := if m.numStrgKeysPressed = 0#8 then kbdModifierMaskStrg else 0#16
      applyPressedReleasedModifiersMask mask e m
  | .keyAlt => applyPressedReleasedModifiersMask kbdModifierMaskAlt e m
  | .keyAltgr => applyPressedReleasedModifiersMask kbdModifierMaskAltgr e m
  | .keyLsuper => applyPressedReleasedModifiersMask kbdModifierMaskLsuper e m
  | .keyRsuper => applyPressedReleasedModifiersMask kbdModifierMaskRsuper e m
  | _ => ({ e with modifiers := m.modifiersOld }, m)

/-- The bit of the flag a key works on. -/
def modifierBit : KeyCode → Option ℕ
  | .keyLshift | .keyRshift => some 0
  | .keyCapsLock => some 1
  | .keyAlt => some 2
  | .keyAltgr => some 3
  | .keyLstrg | .keyRstrg => some 4
  | .keyNumLock => some 5
  | .keyScrollLock => some 6
  | .keyLsuper => some 7
  | .keyRsuper => some 8
  | _ => none

/-! ## What one event does to the flags -/

variable {e : KeyEvent} {m : Ps2Modifiers} {evs : List KeyEvent} {k k' : KeyCode} {i j : ℕ}

/-- The event gets the flags that are kept for the next one. -/
theorem modifiers_setModifiers :
    (ps2KbdSetModifiers e m).1.modifiers = (ps2KbdSetModifiers e m).2.modifiersOld := by
  unfold ps2KbdSetModifiers
  split <;> first | rfl | (split <;> rfl)

/-- A mask of one flag has one bit. -/
theorem getLsbD_mask (hj : j < 16) : (1#16 <<< j).getLsbD i = decide (i = j) := by
  rw [← BitVec.twoPow_eq, BitVec.getLsbD_twoPow, decide_eq_true hj, Bool.true_and]
  exact decide_eq_decide.mpr eq_comm

/-- A flag is set if its mask finds it. -/
theorem and_mask_ne_zero_iff {flags : BitVec 16} (hj : j < 16) :
    flags &&& 1#16 <<< j ≠ 0#16 ↔ flags.getLsbD j = true := by
  rw [← BitVec.twoPow_eq, BitVec.and_twoPow]
  have hne : BitVec.twoPow 16 j ≠ 0#16 := fun h => by
    simpa [BitVec.getLsbD_twoPow, hj] using congrArg (·.getLsbD j) h
  cases flags.getLsbD j
  · simp
  · simpa using hne

theorem getLsbD_toggled (mask : BitVec 16) :
    (applyToggledModifiersMask mask e m).2.modifiersOld.getLsbD i
      = (m.modifiersOld.getLsbD i ^^ (decide (e.pressed = .pressed) && mask.getLsbD i)) := by
  unfold applyToggledModifiersMask
  by_cases h : e.pressed = .pressed <;> simp [h]

theorem getLsbD_pressedReleased (hi : i < 16) (mask : BitVec 16) :
    (applyPressedReleasedModifiersMask mask e m).2.modifiersOld.getLsbD i
      = if e.pressed = .pressed then m.modifiersOld.getLsbD i || mask.getLsbD i
        else m.modifiersOld.getLsbD i && !mask.getLsbD i := by
  unfold applyPressedReleasedModifiersMask
  by_cases h : e.pressed = .pressed <;> simp [h, hi]

/-- A mask without the flag leaves it as it is. -/
theorem getLsbD_pressedReleased_of_clear (hi : i < 16) {mask : BitVec 16}
    (h : mask.getLsbD i = false) :
    (applyPressedReleasedModifiersMask mask e m).2.modifiersOld.getLsbD i
      = m.modifiersOld.getLsbD i := by
  rw [getLsbD_pressedReleased hi, h, Bool.or_false, Bool.not_false, Bool.and_true, ite_self]

theorem getLsbD_toggled_of_clear {mask : BitVec 16} (h : mask.getLsbD i = false) :
    (applyToggledModifiersMask mask e m).2.modifiersOld.getLsbD i = m.modifiersOld.getLsbD i := by
  rw [getLsbD_toggled, h, Bool.and_false, Bool.xor_false]

/-- **An event of another key** leaves a flag as it is. -/
theorem getLsbD_setModifiers_of_other (hi : i < 16) (h : modifierBit e.keycode ≠ some i) :
    (ps2KbdSetModifiers e m).2.modifiersOld.getLsbD i = m.modifiersOld.getLsbD i := by
  have hclear : ∀ j, some j ≠ some i → j < 16 → (1#16 <<< j).getLsbD i = false := by
    intro j hj hlt
    rw [getLsbD_mask hlt, decide_eq_false fun hij => hj (congrArg some hij.symm)]
  unfold ps2KbdSetModifiers
  split <;> rename_i hk <;> simp only [hk, modifierBit] at h
  case h_1 | h_2 | h_3 => exact getLsbD_toggled_of_clear (hclear _ h (by decide))
  case h_8 | h_9 | h_10 | h_11 =>
    exact getLsbD_pressedReleased_of_clear hi (hclear _ h (by decide))
  case h_4 | h_5 | h_6 | h_7 =>
    split
    · exact getLsbD_pressedReleased_of_clear hi (hclear _ h (by decide))
    · refine getLsbD_pressedReleased_of_clear hi ?_
      split
      · exact hclear _ h (by decide)
      · exact BitVec.getLsbD_zero
  case h_12 => rfl

/-! ## The history of the events -/

/-- The most recent event of a key is a press. -/
def Held (k : KeyCode) (evs : List KeyEvent) : Prop :=
  (evs.filter (·.keycode = k)).getLast?.map (·.pressed) = some .pressed

/-- One of two keys is held. -/
def PairHeld (k k' : KeyCode) (evs : List KeyEvent) : Prop := Held k evs ∨ Held k' evs

/-- The number of presses of a key. -/
def presses (k : KeyCode) (evs : List KeyEvent) : ℕ :=
  evs.countP fun e => e.keycode = k ∧ e.pressed = .pressed

/-- What an event adds to the count of a pair of keys. -/
def pairDelta (k k' : KeyCode) (e : KeyEvent) : ℤ :=
  if e.keycode = k ∨ e.keycode = k' then if e.pressed = .pressed then 1 else -1 else 0

/-- The presses of a pair of keys, less its other events. -/
def pairBalance (k k' : KeyCode) (evs : List KeyEvent) : ℤ := (evs.map (pairDelta k k')).sum

/-- **The flags track the keys**: those of Shift and Strg say whether one of the
pair is held, those of the other keys to be held whether the key is, and those
of the lock keys whether the key was pressed an odd number of times. -/
structure ModifiersTrack (evs : List KeyEvent) (flags : BitVec 16) : Prop where
  shift : flags &&& kbdModifierMaskShift ≠ 0#16 ↔ PairHeld .keyLshift .keyRshift evs
  strg : flags &&& kbdModifierMaskStrg ≠ 0#16 ↔ PairHeld .keyLstrg .keyRstrg evs
  alt : flags &&& kbdModifierMaskAlt ≠ 0#16 ↔ Held .keyAlt evs
  altgr : flags &&& kbdModifierMaskAltgr ≠ 0#16 ↔ Held .keyAltgr evs
  lsuper : flags &&& kbdModifierMaskLsuper ≠ 0#16 ↔ Held .keyLsuper evs
  rsuper : flags &&& kbdModifierMaskRsuper ≠ 0#16 ↔ Held .keyRsuper evs
  capsLock : flags &&& kbdModifierMaskCapsLock ≠ 0#16 ↔ Odd (presses .keyCapsLock evs)
  numLock : flags &&& kbdModifierMaskNumLock ≠ 0#16 ↔ Odd (presses .keyNumLock evs)
  scrollLock : flags &&& kbdModifierMaskScrollLock ≠ 0#16 ↔ Odd (presses .keyScrollLock evs)

/-- The variables after a list of events. -/
def modifiersAfter (evs : List KeyEvent) : Ps2Modifiers :=
  evs.foldl (fun m e => (ps2KbdSetModifiers e m).2) .initial

theorem modifiersAfter_concat :
    modifiersAfter (evs ++ [e]) = (ps2KbdSetModifiers e (modifiersAfter evs)).2 := by
  rw [modifiersAfter, List.foldl_concat]
  rfl

theorem not_held_nil : ¬ Held k [] := fun h => by cases h

/-- An event of the key decides whether it is held. -/
theorem held_concat (h : e.keycode = k) : Held k (evs ++ [e]) ↔ e.pressed = .pressed := by
  unfold Held
  rw [List.filter_append, List.filter_singleton, decide_eq_true h, cond_true,
    List.getLast?_concat, Option.map_some, Option.some.injEq]

/-- An event of another key does not matter. -/
theorem held_concat_of_ne (h : e.keycode ≠ k) : Held k (evs ++ [e]) ↔ Held k evs := by
  unfold Held
  rw [List.filter_append, List.filter_singleton, decide_eq_false h, cond_false,
    List.append_nil]

theorem pairBalance_concat :
    pairBalance k k' (evs ++ [e]) = pairBalance k k' evs + pairDelta k k' e := by
  rw [pairBalance, List.map_append, List.sum_append, List.map_singleton, List.sum_singleton]
  rfl

/-! ## The flag of one key -/

/-- **A flag that is set and cleared** says whether its key is held. -/
theorem getLsbD_modifiersAfter_iff_held (hj : j < 16)
    (hset : ∀ e m, e.keycode = k →
      ps2KbdSetModifiers e m = applyPressedReleasedModifiersMask (1#16 <<< j) e m)
    (hother : ∀ k', modifierBit k' = some j → k' = k) (evs : List KeyEvent) :
    (modifiersAfter evs).modifiersOld.getLsbD j = true ↔ Held k evs := by
  induction evs using List.reverseRecOn with
  | nil => exact iff_of_false (by simp [modifiersAfter, Ps2Modifiers.initial]) not_held_nil
  | append_singleton evs e ih =>
    rw [modifiersAfter_concat]
    by_cases hk : e.keycode = k
    · rw [hset e _ hk, held_concat hk, getLsbD_pressedReleased hj, getLsbD_mask hj,
        decide_eq_true rfl]
      by_cases hp : e.pressed = .pressed
      · rw [if_pos hp, Bool.or_true, eq_self, true_iff]
        exact hp
      · rw [if_neg hp, Bool.not_true, Bool.and_false]
        exact iff_of_false Bool.false_ne_true hp
    · rw [getLsbD_setModifiers_of_other hj fun h => hk (hother _ h), held_concat_of_ne hk]
      exact ih

/-- A press of the key makes its number odd or even. -/
theorem odd_presses_concat :
    Odd (presses k (evs ++ [e])) ↔
      (Odd (presses k evs) ↔ ¬ (e.keycode = k ∧ e.pressed = .pressed)) := by
  unfold presses
  rw [List.countP_append, List.countP_singleton, Nat.odd_add]
  by_cases h : e.keycode = k ∧ e.pressed = .pressed <;> simp [h]

/-- **A flag that is toggled** says whether its key was pressed an odd number of
times. -/
theorem getLsbD_modifiersAfter_iff_odd (hj : j < 16)
    (hset : ∀ e m, e.keycode = k →
      ps2KbdSetModifiers e m = applyToggledModifiersMask (1#16 <<< j) e m)
    (hother : ∀ k', modifierBit k' = some j → k' = k) (evs : List KeyEvent) :
    (modifiersAfter evs).modifiersOld.getLsbD j = true ↔ Odd (presses k evs) := by
  induction evs using List.reverseRecOn with
  | nil => exact iff_of_false (by simp [modifiersAfter, Ps2Modifiers.initial]) (by simp [presses])
  | append_singleton evs e ih =>
    rw [modifiersAfter_concat, odd_presses_concat, ← ih]
    by_cases hk : e.keycode = k
    · rw [hset e _ hk, getLsbD_toggled, getLsbD_mask hj, decide_eq_true rfl, Bool.and_true]
      by_cases hp : e.pressed = .pressed <;> simp [hk, hp]
    · rw [getLsbD_setModifiers_of_other hj fun h => hk (hother _ h)]
      simp [hk]

/-! ## The flag of a pair of keys

The counter of a pair is the number of presses less the number of other events,
in 8 bits. So a release that should clear the flag does if this number is a
multiple of 256, and one that should leave it does if it is none. -/

/-- **At every release of a pair that is held**, the presses less the other
events up to it are a multiple of 256 exactly if the release leaves neither key
held. -/
def PairCounted (k k' : KeyCode) (evs : List KeyEvent) : Prop :=
  ∀ pre e, pre ++ [e] <+: evs → e.keycode = k ∨ e.keycode = k' → e.pressed ≠ .pressed →
    PairHeld k k' pre →
      (256 ∣ pairBalance k k' (pre ++ [e]) ↔ ¬ PairHeld k k' (pre ++ [e]))

/-- Every prefix of a longer list is the whole list or a prefix of the shorter
one. -/
theorem forall_prefix_concat {P : List KeyEvent → Prop} :
    (∀ pre, pre <+: evs ++ [e] → P pre) ↔ P (evs ++ [e]) ∧ ∀ pre, pre <+: evs → P pre := by
  simp only [List.prefix_concat_iff, or_imp, forall_and, forall_eq]

theorem pairCounted_concat :
    PairCounted k k' (evs ++ [e]) ↔ PairCounted k k' evs ∧
      (e.keycode = k ∨ e.keycode = k' → e.pressed ≠ .pressed → PairHeld k k' evs →
        (256 ∣ pairBalance k k' (evs ++ [e]) ↔ ¬ PairHeld k k' (evs ++ [e]))) := by
  unfold PairCounted
  constructor
  · intro h
    exact ⟨fun pre e' hpre => h pre e' (hpre.trans (List.prefix_append _ _)),
      h evs e List.prefix_rfl⟩
  · rintro ⟨h, he⟩ pre e' hpre
    rcases List.prefix_concat_iff.mp hpre with heq | hpre
    · obtain ⟨rfl, rfl⟩ := List.append_singleton_inj.mp heq
      exact he
    · exact h pre e' hpre

theorem not_pairHeld_nil : ¬ PairHeld k k' [] := fun h => h.elim not_held_nil not_held_nil

theorem pairHeld_concat_of_pressed (hk : e.keycode = k ∨ e.keycode = k')
    (hp : e.pressed = .pressed) : PairHeld k k' (evs ++ [e]) :=
  hk.imp (fun h => (held_concat h).mpr hp) fun h => (held_concat h).mpr hp

theorem pairHeld_concat_of_ne (hk : ¬ (e.keycode = k ∨ e.keycode = k')) :
    PairHeld k k' (evs ++ [e]) ↔ PairHeld k k' evs :=
  or_congr (held_concat_of_ne fun h => hk (.inl h)) (held_concat_of_ne fun h => hk (.inr h))

/-- A release holds no key. -/
theorem held_of_held_concat (hp : e.pressed ≠ .pressed) (h : Held k (evs ++ [e])) :
    Held k evs := by
  by_cases hk : e.keycode = k
  · exact absurd ((held_concat hk).mp h) hp
  · exact (held_concat_of_ne hk).mp h

theorem pairHeld_of_pairHeld_concat (hp : e.pressed ≠ .pressed)
    (h : PairHeld k k' (evs ++ [e])) : PairHeld k k' evs :=
  h.imp (held_of_held_concat hp) (held_of_held_concat hp)

/-- **A pair of keys** with a flag and a counter in `ps2_kbd_set_modifiers`. -/
structure CountedPair (k k' : KeyCode) (j : ℕ) (count : Ps2Modifiers → BitVec 8) : Prop where
  lt : j < 16
  initial : count .initial = 0#8
  bit : ∀ k₁, modifierBit k₁ = some j → k₁ = k ∨ k₁ = k'
  /-- An event of the pair is counted, and no other is. -/
  counts : ∀ e m,
    count (ps2KbdSetModifiers e m).2 = count m + BitVec.ofInt 8 (pairDelta k k' e)
  /-- A press sets the flag. -/
  press : ∀ e m, e.keycode = k ∨ e.keycode = k' → e.pressed = .pressed →
    (ps2KbdSetModifiers e m).2.modifiersOld.getLsbD j = true
  /-- A release clears it if the counter has come to zero. -/
  release : ∀ e m, e.keycode = k ∨ e.keycode = k' → e.pressed ≠ .pressed →
    ((ps2KbdSetModifiers e m).2.modifiersOld.getLsbD j = true ↔
      m.modifiersOld.getLsbD j = true ∧ count (ps2KbdSetModifiers e m).2 ≠ 0#8)

variable {count : Ps2Modifiers → BitVec 8}

/-- **The counter** is the presses less the other events, in 8 bits. -/
theorem CountedPair.count_modifiersAfter (h : CountedPair k k' j count) (evs : List KeyEvent) :
    count (modifiersAfter evs) = BitVec.ofInt 8 (pairBalance k k' evs) := by
  induction evs using List.reverseRecOn with
  | nil => exact h.initial
  | append_singleton evs e ih =>
    rw [modifiersAfter_concat, h.counts, ih, pairBalance_concat, BitVec.ofInt_add]

theorem ofInt_eq_zero_iff (z : ℤ) : BitVec.ofInt 8 z = 0#8 ↔ 256 ∣ z := by
  rw [← BitVec.toNat_inj, BitVec.toNat_ofInt]
  show (z % 256).toNat = 0 ↔ 256 ∣ z
  omega

/-- **A release** leaves the flag of the pair as it is, unless the count is a
multiple of 256. -/
theorem CountedPair.flag_release (h : CountedPair k k' j count)
    (hk : e.keycode = k ∨ e.keycode = k') (hp : e.pressed ≠ .pressed) :
    (modifiersAfter (evs ++ [e])).modifiersOld.getLsbD j = true ↔
      (modifiersAfter evs).modifiersOld.getLsbD j = true ∧
        ¬ 256 ∣ pairBalance k k' (evs ++ [e]) := by
  have hcount := h.count_modifiersAfter (evs ++ [e])
  rw [modifiersAfter_concat] at hcount ⊢
  rw [h.release e _ hk hp, hcount, ne_eq, ofInt_eq_zero_iff]

/-- **The step of the induction**: where the flag was right before an event, it
is right after it exactly if the event is counted well. -/
theorem CountedPair.flag_concat_iff (h : CountedPair k k' j count)
    (hpre : (modifiersAfter evs).modifiersOld.getLsbD j = true ↔ PairHeld k k' evs) :
    ((modifiersAfter (evs ++ [e])).modifiersOld.getLsbD j = true ↔ PairHeld k k' (evs ++ [e]))
      ↔ (e.keycode = k ∨ e.keycode = k' → e.pressed ≠ .pressed → PairHeld k k' evs →
        (256 ∣ pairBalance k k' (evs ++ [e]) ↔ ¬ PairHeld k k' (evs ++ [e]))) := by
  by_cases hk : e.keycode = k ∨ e.keycode = k'
  · by_cases hp : e.pressed = .pressed
    · refine iff_of_true ?_ fun _ hne => absurd hp hne
      rw [modifiersAfter_concat]
      exact iff_of_true (h.press e _ hk hp) (pairHeld_concat_of_pressed hk hp)
    · rw [h.flag_release hk hp, hpre]
      have hheld : PairHeld k k' (evs ++ [e]) → PairHeld k k' evs :=
        pairHeld_of_pairHeld_concat hp
      constructor
      · intro hflag _ _ hevs
        exact ⟨fun hdvd hnow => (hflag.mpr hnow).2 hdvd,
          fun hnot => not_not.mp fun hdvd => hnot (hflag.mp ⟨hevs, hdvd⟩)⟩
      · intro hcount
        exact ⟨fun hflag => not_not.mp fun hnot => hflag.2 ((hcount hk hp hflag.1).mpr hnot),
          fun hnow => ⟨hheld hnow, fun hdvd => (hcount hk hp (hheld hnow)).mp hdvd hnow⟩⟩
  · refine iff_of_true ?_ fun hk' => absurd hk' hk
    rw [modifiersAfter_concat, getLsbD_setModifiers_of_other h.lt fun hb => hk (h.bit _ hb),
      pairHeld_concat_of_ne hk]
    exact hpre

/-- **The flag of a pair is right after every event** exactly if its releases
are counted well. -/
theorem CountedPair.forall_flag_iff (h : CountedPair k k' j count) (evs : List KeyEvent) :
    (∀ pre, pre <+: evs →
      ((modifiersAfter pre).modifiersOld.getLsbD j = true ↔ PairHeld k k' pre))
      ↔ PairCounted k k' evs := by
  induction evs using List.reverseRecOn with
  | nil =>
    refine iff_of_true (fun pre hpre => ?_) fun pre e hpre => ?_
    · rw [List.prefix_nil.mp hpre]
      exact iff_of_false (by simp [modifiersAfter, Ps2Modifiers.initial]) not_pairHeld_nil
    · cases List.append_ne_nil_of_right_ne_nil pre (List.cons_ne_nil e []) (List.prefix_nil.mp hpre)
  | append_singleton evs e ih =>
    rw [forall_prefix_concat, ih, pairCounted_concat, and_comm]
    exact and_congr_right fun hcounted => h.flag_concat_iff (ih.mpr hcounted evs List.prefix_rfl)

/-! ## The keys of the driver -/

/-- Only the keys of the table work on a flag. -/
theorem eq_of_modifierBit (h : modifierBit k = some j) :
    (k, j) ∈ [(KeyCode.keyLshift, 0), (.keyRshift, 0), (.keyCapsLock, 1), (.keyAlt, 2),
      (.keyAltgr, 3), (.keyLstrg, 4), (.keyRstrg, 4), (.keyNumLock, 5), (.keyScrollLock, 6),
      (.keyLsuper, 7), (.keyRsuper, 8)] := by
  unfold modifierBit at h
  split at h <;> simp only [Option.some.injEq, reduceCtorEq] at h <;> subst h <;> decide

@[simp] theorem numShiftKeysPressed_toggled (mask : BitVec 16) :
    (applyToggledModifiersMask mask e m).2.numShiftKeysPressed = m.numShiftKeysPressed := by
  unfold applyToggledModifiersMask
  split <;> rfl

@[simp] theorem numStrgKeysPressed_toggled (mask : BitVec 16) :
    (applyToggledModifiersMask mask e m).2.numStrgKeysPressed = m.numStrgKeysPressed := by
  unfold applyToggledModifiersMask
  split <;> rfl

@[simp] theorem numShiftKeysPressed_pressedReleased (mask : BitVec 16) :
    (applyPressedReleasedModifiersMask mask e m).2.numShiftKeysPressed
      = m.numShiftKeysPressed := by
  unfold applyPressedReleasedModifiersMask
  split <;> rfl

@[simp] theorem numStrgKeysPressed_pressedReleased (mask : BitVec 16) :
    (applyPressedReleasedModifiersMask mask e m).2.numStrgKeysPressed = m.numStrgKeysPressed := by
  unfold applyPressedReleasedModifiersMask
  split <;> rfl

/-- The mask of a release of a pair of keys. -/
theorem getLsbD_releaseMask (hj : j < 16) (n : BitVec 8) :
    (if n = 0#8 then 1#16 <<< j else 0#16).getLsbD j = decide (n = 0#8) := by
  split
  · next h => rw [getLsbD_mask hj, decide_eq_true rfl, decide_eq_true h]
  · next h => rw [BitVec.getLsbD_zero, decide_eq_false h]

theorem countedPair_shift : CountedPair .keyLshift .keyRshift 0 (·.numShiftKeysPressed) where
  lt := by decide
  initial := rfl
  bit k h := by simpa using eq_of_modifierBit h
  counts e m := by
    by_cases hk : e.keycode = .keyLshift ∨ e.keycode = .keyRshift
    · rw [pairDelta, if_pos hk]
      by_cases hp : e.pressed = .pressed <;> rcases hk with hk | hk
      all_goals simp [ps2KbdSetModifiers, hk, hp, BitVec.sub_eq_add_neg]
    · rw [pairDelta, if_neg hk]
      unfold ps2KbdSetModifiers
      split
      case h_4 h => exact absurd (.inl h) hk
      case h_5 h => exact absurd (.inr h) hk
      case h_6 | h_7 => split <;> simp
      all_goals simp
  press e m hk hp := by
    rcases hk with hk | hk
    all_goals
      simp only [ps2KbdSetModifiers, hk, hp, if_true]
      rw [getLsbD_pressedReleased (by decide), if_pos hp, kbdModifierMaskShift,
        getLsbD_mask (by decide), decide_eq_true rfl, Bool.or_true]
  release e m hk hp := by
    rcases hk with hk | hk
    all_goals
      simp only [ps2KbdSetModifiers, hk, hp, if_false]
      rw [getLsbD_pressedReleased (by decide), if_neg hp, kbdModifierMaskShift,
        getLsbD_releaseMask (by decide), numShiftKeysPressed_pressedReleased]
      simp

theorem countedPair_strg : CountedPair .keyLstrg .keyRstrg 4 (·.numStrgKeysPressed) where
  lt := by decide
  initial := rfl
  bit k h := by simpa using eq_of_modifierBit h
  counts e m := by
    by_cases hk : e.keycode = .keyLstrg ∨ e.keycode = .keyRstrg
    · rw [pairDelta, if_pos hk]
      by_cases hp : e.pressed = .pressed <;> rcases hk with hk | hk
      all_goals simp [ps2KbdSetModifiers, hk, hp, BitVec.sub_eq_add_neg]
    · rw [pairDelta, if_neg hk]
      unfold ps2KbdSetModifiers
      split
      case h_6 h => exact absurd (.inl h) hk
      case h_7 h => exact absurd (.inr h) hk
      case h_4 | h_5 => split <;> simp
      all_goals simp
  press e m hk hp := by
    rcases hk with hk | hk
    all_goals
      simp only [ps2KbdSetModifiers, hk, hp, if_true]
      rw [getLsbD_pressedReleased (by decide), if_pos hp, kbdModifierMaskStrg,
        getLsbD_mask (by decide), decide_eq_true rfl, Bool.or_true]
  release e m hk hp := by
    rcases hk with hk | hk
    all_goals
      simp only [ps2KbdSetModifiers, hk, hp, if_false]
      rw [getLsbD_pressedReleased (by decide), if_neg hp, kbdModifierMaskStrg,
        getLsbD_releaseMask (by decide), numStrgKeysPressed_pressedReleased]
      simp

/-- The flags of the other keys are always right, so those of the two pairs
decide. -/
theorem modifiersTrack_modifiersAfter_iff (evs : List KeyEvent) :
    ModifiersTrack evs (modifiersAfter evs).modifiersOld ↔
      ((modifiersAfter evs).modifiersOld.getLsbD 0 = true ↔ PairHeld .keyLshift .keyRshift evs) ∧
        ((modifiersAfter evs).modifiersOld.getLsbD 4 = true
          ↔ PairHeld .keyLstrg .keyRstrg evs) := by
  have hbit : ∀ {j}, j < 16 → ((modifiersAfter evs).modifiersOld &&& 1#16 <<< j ≠ 0#16 ↔
      (modifiersAfter evs).modifiersOld.getLsbD j = true) := and_mask_ne_zero_iff
  have hheld : ∀ {k j}, j < 16 → (∀ e m, e.keycode = k →
      ps2KbdSetModifiers e m = applyPressedReleasedModifiersMask (1#16 <<< j) e m) →
      (∀ k', modifierBit k' = some j → k' = k) →
      ((modifiersAfter evs).modifiersOld &&& 1#16 <<< j ≠ 0#16 ↔ Held k evs) :=
    fun hj hset hother => (hbit hj).trans (getLsbD_modifiersAfter_iff_held hj hset hother evs)
  have hodd : ∀ {k j}, j < 16 → (∀ e m, e.keycode = k →
      ps2KbdSetModifiers e m = applyToggledModifiersMask (1#16 <<< j) e m) →
      (∀ k', modifierBit k' = some j → k' = k) →
      ((modifiersAfter evs).modifiersOld &&& 1#16 <<< j ≠ 0#16 ↔ Odd (presses k evs)) :=
    fun hj hset hother => (hbit hj).trans (getLsbD_modifiersAfter_iff_odd hj hset hother evs)
  constructor
  · intro h
    exact ⟨(hbit (by decide)).symm.trans h.shift, (hbit (by decide)).symm.trans h.strg⟩
  · rintro ⟨hshift, hstrg⟩
    refine ⟨(hbit (by decide)).trans hshift, (hbit (by decide)).trans hstrg,
      hheld ?_ ?_ ?_, hheld ?_ ?_ ?_, hheld ?_ ?_ ?_, hheld ?_ ?_ ?_,
      hodd ?_ ?_ ?_, hodd ?_ ?_ ?_, hodd ?_ ?_ ?_⟩
    all_goals first
      | decide
      | exact fun k' h => by simpa using eq_of_modifierBit h
      | exact fun e m hk => by rw [ps2KbdSetModifiers, hk]; rfl

/-- A property of the empty list holds of all prefixes if it does of those with
a last element. -/
theorem forall_concat_prefix_iff {P : List KeyEvent → Prop} (hnil : P []) :
    (∀ pre e, pre ++ [e] <+: evs → P (pre ++ [e])) ↔ ∀ pre, pre <+: evs → P pre := by
  constructor
  · intro h pre hpre
    rcases List.eq_nil_or_concat' pre with rfl | ⟨pre, e, rfl⟩
    · exact hnil
    · exact h pre e hpre
  · exact fun h pre e => h _

/-- **The modifier flags** of every event of a list say what the keys did up to
it if and only if the releases of the Shift keys and those of the Strg keys are
counted well: at each of them that finds the pair held, the presses less the
other events of the pair are a multiple of 256 exactly if neither key is held
after it. -/
theorem ps2KbdSetModifiers_track_iff (evs : List KeyEvent) :
    (∀ pre e, pre ++ [e] <+: evs →
      ModifiersTrack (pre ++ [e]) (ps2KbdSetModifiers e (modifiersAfter pre)).1.modifiers)
      ↔ PairCounted .keyLshift .keyRshift evs ∧ PairCounted .keyLstrg .keyRstrg evs := by
  rw [← countedPair_shift.forall_flag_iff, ← countedPair_strg.forall_flag_iff]
  have hnil : ModifiersTrack [] (modifiersAfter []).modifiersOld :=
    (modifiersTrack_modifiersAfter_iff []).mpr
      ⟨iff_of_false (by decide) not_pairHeld_nil, iff_of_false (by decide) not_pairHeld_nil⟩
  simp only [modifiers_setModifiers, ← modifiersAfter_concat]
  rw [forall_concat_prefix_iff
    (P := fun pre => ModifiersTrack pre (modifiersAfter pre).modifiersOld) hnil]
  simp only [modifiersTrack_modifiersAfter_iff, imp_and, forall_and]

/-- A Shift key that is held until it repeats: the press is counted twice, and
the flag is still set after the release. -/
theorem ps2KbdSetModifiers_repeated :
    let press : KeyEvent := ⟨.keyLshift, .pressed, 0#16⟩
    let release : KeyEvent := ⟨.keyLshift, .released, 0#16⟩
    ¬ ModifiersTrack [press, press, release]
      (ps2KbdSetModifiers release (modifiersAfter [press, press])).1.modifiers := by
  intro press release h
  have hflag : (ps2KbdSetModifiers release (modifiersAfter [press, press])).1.modifiers
    &&& kbdModifierMaskShift ≠ 0#16 := by decide
  rcases h.shift.mp hflag with hheld | hheld
  · exact absurd hheld (by unfold Held; decide)
  · exact absurd hheld (by unfold Held; decide)
