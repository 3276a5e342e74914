import Mathlib.Data.Finset.Insert
import Mathlib.Data.Finset.Erase
import Mathlib.Data.List.Count

/-!
# The ledger of a list of events

Some events hand a resource out, some take one back, and the others do neither.
A list of events, newest first, is kept as a ledger is: `held` goes through it
and gives the set of resources that are out – or nothing at all, if a resource
was handed out while it was out, or was taken back while it was not. That a
ledger comes out even is the two halves of the usual demand at once: with
`held l = some ∅` nothing has leaked, and that the value is a `some` says that
nothing was given back twice.

`countP_acquire` is the reading in numbers: a resource was handed out as often
as it was taken back, and once more if it is out.
-/

/-- What an event does to the ledger. -/
inductive LedgerEntry (α : Type*) where
  /-- The resource is handed out. -/
  | acquire (a : α)
  /-- The resource is taken back. -/
  | release (a : α)
  /-- Neither. -/
  | other
  deriving DecidableEq

namespace ResourceLedger

variable {α ε : Type*} [DecidableEq α]

/-- Booking one entry. -/
def book : LedgerEntry α → Finset α → Option (Finset α)
  | .acquire a, H => if a ∈ H then none else some (insert a H)
  | .release a, H => if a ∈ H then some (H.erase a) else none
  | .other, H => some H

/-- **The resources that are out** after a list of events, newest first. -/
def held (entry : ε → LedgerEntry α) : List ε → Option (Finset α)
  | [] => some ∅
  | e :: l => (held entry l).bind (book (entry e))

variable {entry : ε → LedgerEntry α} {l : List ε} {e : ε} {a : α} {H : Finset α}

@[simp] theorem held_nil : held entry [] = some ∅ := rfl

/-- An event that is in no ledger. -/
theorem held_cons_of_other (he : entry e = .other) : held entry (e :: l) = held entry l := by
  rw [held, he]
  cases held entry l <;> rfl

/-- Handing out a resource that is not out. -/
theorem held_cons_of_acquire (he : entry e = .acquire a) (hl : held entry l = some H)
    (ha : a ∉ H) : held entry (e :: l) = some (insert a H) := by
  rw [held, hl, he, Option.bind_some, book, if_neg ha]

/-- Taking back a resource that is out. -/
theorem held_cons_of_release (he : entry e = .release a) (hl : held entry l = some H)
    (ha : a ∈ H) : held entry (e :: l) = some (H.erase a) := by
  rw [held, hl, he, Option.bind_some, book, if_pos ha]

/-- **The ledger in numbers.** -/
theorem countP_acquire (a : α) (hl : held entry l = some H) :
    l.countP (fun e => entry e = .acquire a)
      = l.countP (fun e => entry e = .release a) + if a ∈ H then 1 else 0 := by
  induction l generalizing H with
  | nil =>
    obtain rfl := Option.some.inj hl
    simp
  | cons e l ih =>
    obtain ⟨H', hH', hbook⟩ := Option.bind_eq_some_iff.mp hl
    rw [List.countP_cons, List.countP_cons, ih hH']
    cases he : entry e with
    | other =>
      rw [he] at hbook
      obtain rfl := Option.some.inj hbook
      simp
    | acquire b =>
      rw [he, book] at hbook
      split at hbook
      · cases hbook
      · next hb =>
        obtain rfl := Option.some.inj hbook
        by_cases hab : b = a
        · subst hab
          simp [hb]
        · have hba : ¬ a = b := fun h => hab h.symm
          simp [hab, hba]
    | release b =>
      rw [he, book] at hbook
      split at hbook
      · next hb =>
        obtain rfl := Option.some.inj hbook
        by_cases hab : b = a
        · subst hab
          simp [hb]
        · have hba : ¬ a = b := fun h => hab h.symm
          simp [hab, hba]
      · cases hbook

end ResourceLedger
