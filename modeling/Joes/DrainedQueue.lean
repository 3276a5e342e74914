import Joes.RingQueue

/-!
# Queues that are drained

A producer puts elements into a queue of bounded length, which loses its oldest
element when it is full, and a consumer drains it from time to time. Whatever the
order of the two, the consumer gets elements that were put in, in their order and
none twice (`drainRun_sublist`). What is lost are the elements put into a full queue,
one for one (`length_drainRun`), so nothing is lost exactly if the queue is never
full when an element comes (`drainRun_eq_iff`).

The first two are inductions on the actions, for any queue to start with, and each needs one
fact about putting an element in: the queue that results is part of the old one with the
element behind it (`boundedAppend_sublist`), and it is as long as that, or shorter by the one
that is lost (`length_boundedAppend`). The third follows from them, as a part of a list that
is as long as the list is the list.
-/

/-- An action on a queue. -/
inductive DrainAction (α : Type*) where
  | put (a : α)
  | drain

/-- The element an action puts in. -/
def DrainAction.element {α : Type*} : DrainAction α → Option α
  | put a => some a
  | drain => none

variable {α : Type*} {cap : ℕ} {q : List α} {acts acts' : List (DrainAction α)}

/-- **The queue over a list of actions**: what the consumer has got, and what is in
the queue after them. -/
def drainRun (cap : ℕ) : List α → List (DrainAction α) → List α × List α
  | q, [] => ([], q)
  | q, .put a :: acts => drainRun cap (boundedAppend cap q a) acts
  | q, .drain :: acts => (q ++ (drainRun cap [] acts).1, (drainRun cap [] acts).2)

/-- The number of elements that are put into a full queue. -/
def overruns (cap : ℕ) : List α → List (DrainAction α) → ℕ
  | _, [] => 0
  | q, .put a :: acts =>
    (if q.length < cap then 0 else 1) + overruns cap (boundedAppend cap q a) acts
  | _, .drain :: acts => overruns cap [] acts

/-- The elements that are put in. -/
def elementsPut (acts : List (DrainAction α)) : List α := acts.filterMap DrainAction.element

/-- Two lists of actions, one after the other. -/
theorem drainRun_append :
    drainRun cap q (acts ++ acts') =
      ((drainRun cap q acts).1 ++ (drainRun cap (drainRun cap q acts).2 acts').1,
        (drainRun cap (drainRun cap q acts).2 acts').2) := by
  induction acts generalizing q with
  | nil => rfl
  | cons act acts ih =>
    cases act with
    | put a => exact ih
    | drain =>
      show (q ++ (drainRun cap [] (acts ++ acts')).1, (drainRun cap [] (acts ++ acts')).2) = _
      rw [ih, ← List.append_assoc]
      rfl

theorem elementsPut_append : elementsPut (acts ++ acts') = elementsPut acts ++ elementsPut acts' :=
  List.filterMap_append

/-- A full queue loses an element for the one that is put in. -/
theorem length_boundedAppend (hcap : 0 < cap) (q : List α) (a : α) :
    (boundedAppend cap q a).length + (if q.length < cap then 0 else 1) = q.length + 1 := by
  unfold boundedAppend
  split
  · rw [List.length_append, List.length_singleton, Nat.add_zero]
  · next hfull =>
    rw [List.length_append, List.length_tail, List.length_singleton,
      Nat.sub_add_cancel (hcap.trans_le (Nat.not_lt.mp hfull))]

/-- Putting an element in keeps the others in order. -/
theorem boundedAppend_sublist (q : List α) (a : α) :
    List.Sublist (boundedAppend cap q a) (q ++ [a]) := by
  unfold boundedAppend
  split
  · exact List.Sublist.refl _
  · exact (List.tail_sublist q).append_right [a]

/-- **Order is kept**: what the consumer has got and what is left is part of what was
there and what was put in, in the same order. -/
theorem drainRun_sublist (q : List α) (acts : List (DrainAction α)) :
    List.Sublist ((drainRun cap q acts).1 ++ (drainRun cap q acts).2) (q ++ elementsPut acts) := by
  induction acts generalizing q with
  | nil => exact List.sublist_append_left q _
  | cons act acts ih =>
    cases act with
    | put a =>
      have hkept : List.Sublist (boundedAppend cap q a) (q ++ [a]) := boundedAppend_sublist q a
      have hput := hkept.append_right (elementsPut acts)
      rw [List.append_assoc] at hput
      exact (ih (boundedAppend cap q a)).trans hput
    | drain =>
      show List.Sublist (q ++ (drainRun cap [] acts).1 ++ (drainRun cap [] acts).2)
        (q ++ elementsPut acts)
      rw [List.append_assoc]
      exact (ih []).append_left q

/-- **What is lost** are the elements put into a full queue, one for one. -/
theorem length_drainRun (hcap : 0 < cap) (q : List α) (acts : List (DrainAction α)) :
    ((drainRun cap q acts).1 ++ (drainRun cap q acts).2).length + overruns cap q acts =
      q.length + (elementsPut acts).length := by
  induction acts generalizing q with
  | nil => rfl
  | cons act acts ih =>
    cases act with
    | put a =>
      have hlen := length_boundedAppend hcap q a
      have hrest := ih (boundedAppend cap q a)
      show ((drainRun cap (boundedAppend cap q a) acts).1 ++
          (drainRun cap (boundedAppend cap q a) acts).2).length +
        ((if q.length < cap then 0 else 1) + overruns cap (boundedAppend cap q a) acts) =
          q.length + (elementsPut acts).length.succ
      omega
    | drain =>
      have hrest := ih []
      show (q ++ (drainRun cap [] acts).1 ++ (drainRun cap [] acts).2).length +
        overruns cap [] acts = q.length + (elementsPut acts).length
      rw [List.append_assoc, List.length_append]
      rw [List.length_nil] at hrest
      omega

/-- **Nothing is lost** exactly if no element is put into a full queue. -/
theorem drainRun_eq_iff (hcap : 0 < cap) (q : List α) (acts : List (DrainAction α)) :
    (drainRun cap q acts).1 ++ (drainRun cap q acts).2 = q ++ elementsPut acts ↔
      overruns cap q acts = 0 := by
  have hlen := length_drainRun hcap q acts
  rw [← List.length_append] at hlen
  constructor
  · intro heq
    rw [heq] at hlen
    exact Nat.left_eq_add.mp hlen.symm
  · intro hnone
    rw [hnone, Nat.add_zero] at hlen
    exact (drainRun_sublist q acts).eq_of_length hlen
