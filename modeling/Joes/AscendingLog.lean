import Mathlib.Order.WithBot

/-!
# Logs that ascend between resets

A log is a list of positions of some order, with resets between them. It ascends if
each position is beyond the ones before it, back to the last reset
(`AscendsBetweenResets`).

Stated of all pairs of positions, this is hard to keep along a run that appends to its
log, since a new position is to be compared with many. Read from the left one position
is enough to remember: the last one, or nothing after a reset (`Ascending`). Nothing is
the bottom of `WithBot`, which is below every position, so the two cases need no
distinction. The second form implies the first, as the order is transitive. Without a
reset the remembered position only goes up, so that all positions up to the next reset
are beyond the one that is remembered at the start (`Ascending.lt`), and an induction on
what stands before a pair brings the reader to its first position
(`Ascending.ascendsBetweenResets`).
-/

/-- A log, with `none` for a reset. -/
abbrev ResetLog (α : Type*) := List (Option α)

namespace ResetLog

variable {α : Type*} [Preorder α]

/-- **The log ascends between resets**: of two positions without a reset between
them, the later one is beyond the earlier one. -/
def AscendsBetweenResets (log : ResetLog α) : Prop :=
  ∀ (before : ResetLog α) (a : α) (between : ResetLog α) (b : α) (after : ResetLog α),
    log = before ++ some a :: (between ++ some b :: after) → none ∉ between → a < b

/-- The log ascends from a bound on. -/
def Ascending : WithBot α → ResetLog α → Prop
  | _, [] => True
  | lo, some a :: log => lo < a ∧ Ascending a log
  | _, none :: log => Ascending ⊥ log

@[simp] theorem ascending_nil (lo : WithBot α) : Ascending lo [] := trivial

@[simp] theorem ascending_some {lo : WithBot α} {a : α} {log : ResetLog α} :
    Ascending lo (some a :: log) ↔ lo < a ∧ Ascending a log := Iff.rfl

@[simp] theorem ascending_none {lo : WithBot α} {log : ResetLog α} :
    Ascending lo (none :: log) ↔ Ascending ⊥ log := Iff.rfl

/-- Up to the next reset every position is beyond the bound. -/
theorem Ascending.lt {lo : WithBot α} {log between after : ResetLog α} {b : α}
    (h : Ascending lo log) (hlog : log = between ++ some b :: after)
    (hreset : none ∉ between) : lo < b := by
  induction between generalizing lo log with
  | nil =>
    subst hlog
    exact h.1
  | cons e between ih =>
    subst hlog
    cases e with
    | none => exact absurd List.mem_cons_self hreset
    | some a =>
      have hnext : (a : WithBot α) < b :=
        ih h.2 rfl fun hmem => hreset (List.mem_cons_of_mem _ hmem)
      exact lt_trans h.1 hnext

/-- **A log that ascends from nothing ascends between resets.** -/
theorem Ascending.ascendsBetweenResets {lo : WithBot α} {log : ResetLog α}
    (h : Ascending lo log) : log.AscendsBetweenResets := by
  intro before a between b after hlog hreset
  induction before generalizing lo log with
  | nil =>
    subst hlog
    exact WithBot.coe_lt_coe.mp (h.2.lt rfl hreset)
  | cons e before ih =>
    subst hlog
    cases e with
    | none => exact ih (ascending_none.mp h) rfl
    | some c => exact ih h.2 rfl

end ResetLog
