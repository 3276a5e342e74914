import Mathlib.Algebra.Group.Basic
import Mathlib.Data.List.Chain
import Mathlib.Data.List.Range

/-!
# Segments of points in a row

A segment starts at a point and goes on in steps of `d` for a length. Two segments
are adjacent if the one starts where the other ends, and then they join to one
segment of the points of both. `coalesceFrom` joins what is adjacent in a list: it
keeps the points in their order (`flatMap_points_coalesceFrom`), and leaves nothing
to join (`isChain_coalesceFrom`).

Both are inductions on the list, for any current segment. For the first one it is enough
that joining appends the points (`points_join`). The second one is less obvious, since
the pass compares a segment with the next one of its input, while in the output there is
a longer one behind it, with others joined to it. But joining moves the end of a segment
and not its start (`exists_coalesceFrom_eq_cons`), and being adjacent to the segment
before is a matter of the start alone.

The points are of any additive monoid, so a step may also move several coordinates at
once.
-/

/-- **A segment**, by the point it starts at and its length. -/
@[ext]
structure Segment (α : Type*) where
  start : α
  length : ℕ
  deriving DecidableEq

namespace Segment

variable {α : Type*} [AddMonoid α] (d : α)

/-- The points of a segment. -/
def points (s : Segment α) : List α := (List.range s.length).map fun i => s.start + i • d

/-- The one segment starts where the other ends. -/
def Adjacent (s t : Segment α) : Prop := t.start = s.start + s.length • d

instance [DecidableEq α] (s t : Segment α) : Decidable (s.Adjacent d t) :=
  inferInstanceAs (Decidable (_ = _))

/-- The segment with another one behind it. -/
def join (s t : Segment α) : Segment α := ⟨s.start, s.length + t.length⟩

variable {d}

/-- **The points of a join** are those of the two segments. -/
theorem points_join {s t : Segment α} (h : s.Adjacent d t) :
    (s.join t).points d = s.points d ++ t.points d := by
  have hshift : ∀ i : ℕ, t.start + i • d = s.start + (s.length + i) • d := fun i => by
    rw [h, add_assoc, ← add_nsmul]
  unfold points join
  rw [List.range_add, List.map_append, List.map_map]
  congr 1
  exact List.map_congr_left fun i _ => (hshift i).symm

/-! ## Joining a list of segments -/

variable [DecidableEq α] (d)

/-- The segments of a list, behind the current one, with what is adjacent joined. -/
def coalesceFrom (current : Segment α) : List (Segment α) → List (Segment α)
  | [] => [current]
  | s :: rest =>
    if current.Adjacent d s then coalesceFrom (current.join s) rest
    else current :: coalesceFrom s rest

variable {d}

/-- **Joining keeps the points.** -/
theorem flatMap_points_coalesceFrom (current : Segment α) (rest : List (Segment α)) :
    (coalesceFrom d current rest).flatMap (points d)
      = current.points d ++ rest.flatMap (points d) := by
  induction rest generalizing current with
  | nil => rfl
  | cons s rest ih =>
    unfold coalesceFrom
    split
    · next h => rw [ih, points_join h, List.append_assoc, List.flatMap_cons]
    · rw [List.flatMap_cons, ih, List.flatMap_cons]

/-- The first segment starts where the current one does. -/
theorem exists_coalesceFrom_eq_cons (current : Segment α) (rest : List (Segment α)) :
    ∃ s l, coalesceFrom d current rest = s :: l ∧ s.start = current.start := by
  induction rest generalizing current with
  | nil => exact ⟨current, [], rfl, rfl⟩
  | cons s rest ih =>
    unfold coalesceFrom
    split
    · exact ih (current.join s)
    · exact ⟨current, _, rfl, rfl⟩

/-- **Nothing is left to join.** -/
theorem isChain_coalesceFrom (current : Segment α) (rest : List (Segment α)) :
    (coalesceFrom d current rest).IsChain fun s t => ¬ s.Adjacent d t := by
  induction rest generalizing current with
  | nil => exact .singleton _
  | cons s rest ih =>
    unfold coalesceFrom
    split
    · exact ih (current.join s)
    · next h =>
      obtain ⟨t, l, heq, hstart⟩ := exists_coalesceFrom_eq_cons (d := d) s rest
      have hchain := ih s
      rw [heq] at hchain ⊢
      refine .cons_cons (fun hadj => h ?_) hchain
      rwa [Adjacent, hstart] at hadj

end Segment
