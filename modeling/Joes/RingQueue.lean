import Mathlib.Data.List.Range
import Mathlib.Data.Nat.ModEq
import Mathlib.Logic.Function.Basic

/-!
# Queues in a ring of slots

A queue of at most `cap` elements can be kept in `cap` slots: the index of the
front and the number of elements say which slots are in use, counted from the
front on and around the end. `ringContents` reads the queue off the slots.

The three operations are one lemma each. Storing behind the last element
appends (`ringContents_append`), unless the ring is full; then it overwrites the
front, and with the front moved on the ring holds the queue without its oldest
element and with the new one (`ringContents_overwrite`). Moving the front on
alone drops the oldest element (`ringContents_succ`).

`boundedAppend` is what the first two do to the queue.
-/

variable {α : Type*} {cap front n : ℕ} {slots : ℕ → α} {a : α}

/-- The contents of a ring of `cap` slots: `n` elements from the slot `front`
on. -/
def ringContents (cap : ℕ) (slots : ℕ → α) (front n : ℕ) : List α :=
  (List.range n).map fun i => slots ((front + i) % cap)

/-- **Appending to a queue** of at most `cap` elements: a full queue first loses
its oldest one. -/
def boundedAppend (cap : ℕ) (q : List α) (a : α) : List α :=
  if q.length < cap then q ++ [a] else q.tail ++ [a]

@[simp] theorem length_ringContents : (ringContents cap slots front n).length = n := by
  rw [ringContents, List.length_map, List.length_range]

@[simp] theorem ringContents_zero : ringContents cap slots front 0 = [] := rfl

/-- Reading starts again at the first slot. -/
theorem ringContents_mod :
    ringContents cap slots (front % cap) n = ringContents cap slots front n := by
  unfold ringContents
  refine List.map_congr_left fun i _ => ?_
  rw [Nat.mod_add_mod]

/-- **The oldest element** is in the front slot, and the others behind it. -/
theorem ringContents_succ :
    ringContents cap slots front (n + 1)
      = slots (front % cap) :: ringContents cap slots ((front + 1) % cap) n := by
  rw [ringContents_mod]
  unfold ringContents
  rw [List.range_succ_eq_map, List.map_cons, List.map_map]
  refine congrArg _ (List.map_congr_left fun i _ => ?_)
  rw [Function.comp_apply, Nat.succ_eq_add_one, Nat.add_right_comm, Nat.add_assoc]

/-- The youngest element is in the last slot in use. -/
theorem ringContents_snoc :
    ringContents cap slots front (n + 1)
      = ringContents cap slots front n ++ [slots ((front + n) % cap)] := by
  unfold ringContents
  rw [List.range_succ, List.map_append]
  rfl

/-- A slot that is not in use does not matter. -/
theorem ringContents_update {k : ℕ} (h : ∀ i < n, (front + i) % cap ≠ k) :
    ringContents cap (Function.update slots k a) front n = ringContents cap slots front n := by
  unfold ringContents
  refine List.map_congr_left fun i hi => ?_
  rw [Function.update_of_ne (h i (List.mem_range.mp hi))]

/-- The slots in use are different ones. -/
theorem ringIndex_ne {i j : ℕ} (hij : i < j) (hj : j < cap) :
    (front + i) % cap ≠ (front + j) % cap := by
  intro h
  have hmod : i % cap = j % cap := Nat.ModEq.add_left_cancel' front h
  rw [Nat.mod_eq_of_lt (hij.trans hj), Nat.mod_eq_of_lt hj] at hmod
  omega

/-- **Storing in the first free slot** appends. -/
theorem ringContents_append (h : n < cap) :
    ringContents cap (Function.update slots ((front + n) % cap) a) front (n + 1)
      = ringContents cap slots front n ++ [a] := by
  rw [ringContents_snoc, Function.update_self, ringContents_update fun i hi => ringIndex_ne hi h]

/-- **Storing in a full ring** overwrites the front; with the front moved on, the
oldest element is gone and the new one is the youngest. -/
theorem ringContents_overwrite (h : 0 < cap) :
    ringContents cap (Function.update slots ((front + cap) % cap) a) ((front + 1) % cap) cap
      = (ringContents cap slots front cap).tail ++ [a] := by
  obtain ⟨m, rfl⟩ := Nat.exists_eq_add_of_lt h
  rw [Nat.zero_add] at h ⊢
  have hlast : (front + 1 + m) % (m + 1) = (front + (m + 1)) % (m + 1) := by
    rw [Nat.add_assoc, Nat.add_comm 1 m]
  rw [ringContents_mod, ringContents_snoc, hlast, Function.update_self, ringContents_succ,
    List.tail_cons, ringContents_mod, ringContents_update fun i hi => ?_]
  rw [← hlast]
  exact ringIndex_ne hi (Nat.lt_succ_self m)

/-- The same, as the one operation it is on the queue. -/
theorem boundedAppend_ringContents (h : 0 < cap) (hn : n ≤ cap) :
    boundedAppend cap (ringContents cap slots front n) a =
      let slots' := Function.update slots ((front + n) % cap) a
      if n < cap then ringContents cap slots' front (n + 1)
      else ringContents cap slots' ((front + 1) % cap) n := by
  dsimp only
  rw [boundedAppend, length_ringContents]
  by_cases hlt : n < cap
  · rw [if_pos hlt, if_pos hlt, ringContents_append hlt]
  · obtain rfl : n = cap := by omega
    rw [if_neg hlt, if_neg hlt, ringContents_overwrite h]
