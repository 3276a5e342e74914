import Joes.Charset
import Mathlib.Data.Nat.Notation
import Mathlib.Data.Prod.Lex
import Mathlib.Order.Monotone.Basic

/-!
# A screen of text

What a terminal is for: a grid of cells, 13 pixels wide and 22 high, each of which is
blank or holds a character in a colour. Characters go to the cell of the cursor, which
moves on in reading order (`TextScreen.put`), and a full screen is cleared.

`TextScreen.image` is what such a screen looks like. A pixel belongs to the glyph of the
cell it lies in, or to the one on the left of it, which may reach over, and shows the
background where neither of them has ink. Only blank cells are written to
(`TextScreen.Blank`), so writing a glyph inks the pixels of the glyph and leaves the
others as they are (`image_write`).
-/

/-- A character and its colour. -/
abbrev TextCell := BitVec 8 × BitVec 32

/-- **A screen of text.** -/
structure TextScreen where
  /-- The row of the cursor. -/
  row : ℕ
  /-- Its column. -/
  column : ℕ
  /-- The colour of the text that follows. -/
  color : BitVec 32
  /-- What is in the cell of a row and a column. -/
  cell : ℕ → ℕ → Option TextCell
  /-- What a pixel shows where there is no ink. -/
  background : ℕ → ℕ → BitVec 32

/-- The ink of a glyph, which is doubled, at a pixel that is so far right of its cell's left
edge and below its upper edge. -/
def TextCell.ink (g : TextCell) (dx dy : ℕ) : Option (BitVec 32) :=
  if charsetPixel g.1 (dx / 2) (dy / 2) then some g.2 else none

namespace TextScreen

/-- The cell on the left. -/
def left (s : TextScreen) (r : ℕ) : ℕ → Option TextCell
  | 0 => none
  | c + 1 => s.cell r c

/-- **What a pixel of the screen shows.** -/
def image (s : TextScreen) (x y : ℕ) : BitVec 32 :=
  (((s.cell (y / 22) (x / 13)).bind fun g => g.ink (x % 13) (y % 22)).or
    ((s.left (y / 22) (x / 13)).bind fun g => g.ink (x % 13 + 13) (y % 22))).getD
      (s.background x y)

/-- A glyph in the cell of the cursor. -/
def write (s : TextScreen) (g : TextCell) : TextScreen :=
  { s with cell := Function.update s.cell s.row (Function.update (s.cell s.row) s.column (some g)) }

/-- An empty screen, with a black background. -/
def clear (s : TextScreen) : TextScreen :=
  { s with row := 0, column := 0, cell := fun _ _ => none, background := fun _ _ => 0#32 }

/-- Where a character takes the cursor, with its glyph if it has one; `none` if it is
ignored. -/
def move (s : TextScreen) (c : BitVec 8) : Option TextScreen :=
  if c = 0x20#8 then some { s with column := s.column + 1 }
  else if c = 0x0A#8 then some { s with row := s.row + 1, column := 0 }
  else if c = 0x09#8 then some { s with column := (s.column / 4 + 1) * 4 }
  else if c.toNat < 32 ∨ 126 < c.toNat then none
  else some { s.write (c, s.color) with column := s.column + 1 }

/-- Behind the last column the next row starts. -/
def wrapRow (columns : ℕ) (s : TextScreen) : TextScreen :=
  if columns ≤ s.column then { s with row := s.row + 1, column := 0 } else s

/-- Behind the last row the screen is cleared. -/
def wrapPage (rows : ℕ) (s : TextScreen) : TextScreen := if rows ≤ s.row then s.clear else s

/-- **One character** on a screen with so many columns and rows. -/
def put (columns rows : ℕ) (s : TextScreen) (c : BitVec 8) : TextScreen :=
  ((s.move c).map fun t => wrapPage rows (wrapRow columns t)).getD s

/-- **The cells at the cursor and after it are blank.** -/
def Blank (s : TextScreen) : Prop :=
  ∀ r c, toLex (s.row, s.column) ≤ toLex (r, c) → s.cell r c = none

variable {s t : TextScreen}

/-! ## The ink of a glyph -/

/-- A glyph is ten pixels high. -/
theorem charset_height : (charset.all fun g => g.length == 10) = true := by decide +kernel

theorem lt_of_charsetPixel {c : BitVec 8} {x y : ℕ} (h : charsetPixel c x y = true) : y < 10 := by
  obtain ⟨hi, -⟩ := exists_row_of_charsetPixel h
  have hlen : (charset.getD (charsetIndex c) []).length = 10 := by
    rw [List.getD_eq_getElem _ _ hi]
    exact eq_of_beq (List.all_eq_true.mp charset_height _ (List.getElem_mem hi))
  by_contra hy
  unfold charsetPixel at h
  rw [List.getD_eq_default _ _ (by omega), BitVec.getMsbD_zero] at h
  cases h

/-- The ink of a glyph is in 20 rows, and in 14 columns at most. -/
theorem ink_bounds {g : TextCell} {dx dy : ℕ} {color : BitVec 32}
    (h : g.ink dx dy = some color) : dx < 14 ∧ dy < 20 := by
  unfold TextCell.ink at h
  split at h
  · next hpixel =>
    have hy := lt_of_charsetPixel hpixel
    have hx := charset_columns hpixel
    omega
  · cases h

theorem ink_eq_none {g : TextCell} {dx dy : ℕ} (h : 14 ≤ dx ∨ 20 ≤ dy) : g.ink dx dy = none := by
  by_contra hink
  obtain ⟨color, hcolor⟩ := Option.ne_none_iff_exists'.mp hink
  have hbounds := ink_bounds hcolor
  omega

/-! ## Writing a glyph -/

theorem cell_write (g : TextCell) (r c : ℕ) :
    (s.write g).cell r c = if r = s.row ∧ c = s.column then some g else s.cell r c := by
  show Function.update s.cell s.row _ r c = _
  by_cases hr : r = s.row
  · subst hr
    rw [Function.update_self]
    by_cases hc : c = s.column
    · subst hc
      rw [Function.update_self, if_pos ⟨rfl, rfl⟩]
    · rw [Function.update_of_ne hc, if_neg fun h => hc h.2]
  · rw [Function.update_of_ne hr, if_neg fun h => hr h.1]

theorem left_write (g : TextCell) (r c : ℕ) :
    (s.write g).left r c = if r = s.row ∧ c = s.column + 1 then some g else s.left r c := by
  cases c with
  | zero => rw [if_neg fun h => Nat.noConfusion h.2]; rfl
  | succ c =>
    show (s.write g).cell r c = _
    rw [cell_write]
    exact if_congr (and_congr_right' Nat.add_right_cancel_iff.symm) rfl rfl

/-- The ink of a glyph in the cell of the cursor, at a pixel of the screen. -/
def inkAtCursor (s : TextScreen) (g : TextCell) (x y : ℕ) : Option (BitVec 32) :=
  if 13 * s.column ≤ x ∧ 22 * s.row ≤ y then g.ink (x - 13 * s.column) (y - 22 * s.row) else none

/-- A pixel in the cell of the cursor, or in the one on the right of it. -/
theorem inkAtCursor_of_mem {g : TextCell} {x y : ℕ} (hrow : y / 22 = s.row)
    (hcol : s.column ≤ x / 13) :
    s.inkAtCursor g x y = g.ink (x % 13 + 13 * (x / 13 - s.column)) (y % 22) := by
  have hx : 13 * s.column ≤ x ∧ x - 13 * s.column = x % 13 + 13 * (x / 13 - s.column) := by omega
  have hy : 22 * s.row ≤ y ∧ y - 22 * s.row = y % 22 := by omega
  unfold inkAtCursor
  rw [if_pos ⟨hx.1, hy.1⟩, hx.2, hy.2]

/-- There is no ink anywhere else. -/
theorem inkAtCursor_eq_none {g : TextCell} {x y : ℕ}
    (h : ¬ (y / 22 = s.row ∧ (x / 13 = s.column ∨ x / 13 = s.column + 1))) :
    s.inkAtCursor g x y = none := by
  unfold inkAtCursor
  split
  · exact ink_eq_none (by omega)
  · rfl

/-- **Writing a glyph at the cursor** inks its pixels and leaves the others as they are. -/
theorem image_write (hblank : s.Blank) (g : TextCell) (x y : ℕ) :
    (s.write g).image x y = (s.inkAtCursor g x y).getD (s.image x y) := by
  have hbg : (s.write g).background = s.background := rfl
  unfold image
  rw [hbg, cell_write, left_write]
  by_cases hrow : y / 22 = s.row
  · rcases eq_or_ne (x / 13) s.column with hcol | hcol
    · -- The pixel is in the cell that is written to.
      have hold : s.cell (y / 22) (x / 13) = none := hblank _ _ (by rw [hrow, hcol])
      rw [inkAtCursor_of_mem hrow hcol.ge, if_pos ⟨hrow, hcol⟩, if_neg fun h => by omega, hold,
        hcol, Nat.sub_self]
      simp only [Option.bind_some, Option.bind_none, Option.none_or, Nat.mul_zero, Nat.add_zero]
      exact Option.getD_or
    · rcases eq_or_ne (x / 13) (s.column + 1) with hnext | hnext
      · -- It is in the next one, which is blank, as was the one that is written to.
        have hright : s.cell (y / 22) (x / 13) = none :=
          hblank _ _ (Prod.Lex.toLex_le_toLex.mpr (Or.inr ⟨hrow.symm, by omega⟩))
        have hleft : s.left (y / 22) (x / 13) = none := by
          rw [hnext]
          exact hblank _ _ (by rw [hrow])
        rw [inkAtCursor_of_mem hrow (by omega), if_neg fun h => hcol h.2, if_pos ⟨hrow, hnext⟩,
          hright, hleft, show 13 * (x / 13 - s.column) = 13 by omega]
        simp only [Option.bind_some, Option.bind_none, Option.none_or, Option.getD_none]
      · rw [inkAtCursor_eq_none (by omega), if_neg fun h => hcol h.2, if_neg fun h => hnext h.2]
        rfl
  · rw [inkAtCursor_eq_none fun h => hrow h.1, if_neg fun h => hrow h.1, if_neg fun h => hrow h.1]
    rfl

/-- An empty screen is black. -/
theorem image_clear (s : TextScreen) (x y : ℕ) : s.clear.image x y = 0#32 := by
  have hleft : s.clear.left (y / 22) (x / 13) = none := by cases x / 13 <;> rfl
  unfold image
  rw [hleft]
  rfl

/-! ## The cells after the cursor -/

/-- Where the cursor moves on, the cells after it are still blank. -/
theorem Blank.mono (h : s.Blank) (hcell : t.cell = s.cell)
    (hle : toLex (s.row, s.column) ≤ toLex (t.row, t.column)) : t.Blank := by
  intro r c hrc
  rw [hcell]
  exact h r c (hle.trans hrc)

theorem blank_clear (s : TextScreen) : s.clear.Blank := fun _ _ _ => rfl

/-- **A character keeps the cells after the cursor blank.** -/
theorem Blank.move (h : s.Blank) {c : BitVec 8} (ht : s.move c = some t) : t.Blank := by
  unfold TextScreen.move at ht
  split_ifs at ht with hspace hline htab hother
  · obtain rfl := Option.some.inj ht
    exact h.mono rfl (Prod.Lex.toLex_le_toLex.mpr (Or.inr ⟨rfl, Nat.le_succ _⟩))
  · obtain rfl := Option.some.inj ht
    exact h.mono rfl (Prod.Lex.toLex_le_toLex.mpr (Or.inl (Nat.lt_succ_self _)))
  · obtain rfl := Option.some.inj ht
    exact h.mono rfl (Prod.Lex.toLex_le_toLex.mpr (Or.inr ⟨rfl, by dsimp only; omega⟩))
  · obtain rfl := Option.some.inj ht
    intro r c hrc
    have hafter : s.row < r ∨ s.row = r ∧ s.column + 1 ≤ c := Prod.Lex.toLex_le_toLex.mp hrc
    show (s.write _).cell r c = none
    rw [cell_write, if_neg (by omega)]
    exact h r c (Prod.Lex.toLex_le_toLex.mpr (by omega))

end TextScreen
