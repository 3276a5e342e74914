import Joes.AscendingLog
import Mathlib.Data.Prod.Lex
import Mathlib.Tactic.NormNum
import Mathlib.Algebra.Group.Nat.Defs

/-!
# The terminal

`terminal.c`: a cursor of two 8-bit numbers, a row and a column, which each
character moves, and the calls that it makes of the framebuffer. The tests that
wrap a line and clear the screen are in pixels, against the 64-bit sizes of the
framebuffer.

As long as neither number overflows the cursor moves on in reading order, so
nothing is drawn over an earlier glyph before the screen is cleared
(`ascending_terminalWriteString`). The numbers do not overflow on a screen of at
most 252 columns and 255 rows: a tab at column 252 would go to column 256. On
any larger screen some text is drawn over (`terminal_ascends_iff`).
-/

/-- What the terminal reads of a `struct limine_framebuffer`. -/
structure LimineFramebuffer where
  /-- The width in pixels. -/
  width : BitVec 64
  /-- The height in pixels. -/
  height : BitVec 64
  deriving DecidableEq

/-- `struct terminal`. -/
structure Terminal where
  /-- The column of the cursor. -/
  cursorX : BitVec 8
  /-- The row of the cursor. -/
  cursorY : BitVec 8
  /-- The width of a cell in pixels. -/
  charW : BitVec 8
  /-- The height of a cell in pixels. -/
  charH : BitVec 8
  /-- The colour of the text. -/
  fgColor : BitVec 32
  /-- The framebuffer that is drawn to. -/
  framebuffer : LimineFramebuffer
  deriving DecidableEq

/-- A call of the framebuffer. -/
inductive FramebufferCall where
  /-- `framebuffer_draw_char(framebuffer, c, start_x, start_y, color)` -/
  | drawChar (c : BitVec 8) (startX startY : BitVec 16) (color : BitVec 32)
  /-- `framebuffer_clear(framebuffer, color)` -/
  | clear (color : BitVec 32)
  deriving DecidableEq

/-- `TAB_WIDTH`. -/
abbrev tabWidth : BitVec 8 := 4#8

/-- `terminal_init`. -/
def terminalInit (framebuffer : LimineFramebuffer) (charW charH : BitVec 8) : Terminal where
  cursorX := 0#8
  cursorY := 0#8
  charW := charW
  charH := charH
  fgColor := 0xFFFFFF#32
  framebuffer := framebuffer

/-- `terminal_set_color`. -/
def terminalSetColor (t : Terminal) (color : BitVec 32) : Terminal := { t with fgColor := color }

namespace Terminal

/-- The loop that moves the cursor to the next tab stop, with the rounds that
are left after this one. -/
def tabLoop : ℕ → BitVec 8 → BitVec 8
  | 0, x => x + 1#8
  | left + 1, x => if (x + 1#8) % tabWidth ≠ 0#8 then tabLoop left (x + 1#8) else x + 1#8

/-- The `switch` of `terminal_put_char`; `none` where it returns from there. -/
def moveCursor (t : Terminal) (c : BitVec 8) : Option (Terminal × List FramebufferCall) :=
  if c = 0x20#8 then
    some ({ t with cursorX := t.cursorX + 1#8 }, [])
  else if c = 0x0A#8 then
    some ({ t with cursorX := 0#8, cursorY := t.cursorY + 1#8 }, [])
  else if c = 0x09#8 then
    some ({ t with cursorX := tabLoop 3 t.cursorX }, [])
  else if c.toNat < 32 ∨ 126 < c.toNat then
    none
  else
    some ({ t with cursorX := t.cursorX + 1#8 },
      [.drawChar c (t.cursorX.setWidth 16 * t.charW.setWidth 16)
        (t.cursorY.setWidth 16 * t.charH.setWidth 16) t.fgColor])

/-- Go to the next line if the cell does not fit the width. -/
def wrapLine (t : Terminal) : Terminal :=
  if t.framebuffer.width.toNat < (t.cursorX.toNat + 1) * t.charW.toNat then
    { t with cursorX := 0#8, cursorY := t.cursorY + 1#8 }
  else
    t

/-- Clear the screen if the cell does not fit the height. -/
def wrapScreen (t : Terminal) : Terminal × List FramebufferCall :=
  if t.framebuffer.height.toNat < (t.cursorY.toNat + 1) * t.charH.toNat then
    ({ t with cursorX := 0#8, cursorY := 0#8 }, [.clear 0#32])
  else
    (t, [])

end Terminal

/-- `terminal_put_char`. -/
def terminalPutChar (t : Terminal) (c : BitVec 8) : Terminal × List FramebufferCall :=
  match t.moveCursor c with
  | none => (t, [])
  | some (t', calls) =>
    let wrapped := t'.wrapLine.wrapScreen
    (wrapped.1, calls ++ wrapped.2)

/-- `terminal_write_string`. -/
def terminalWriteString (t : Terminal) : List (BitVec 8) → Terminal × List FramebufferCall
  | [] => (t, [])
  | c :: str =>
    let r := terminalPutChar t c
    let s := terminalWriteString r.1 str
    (s.1, r.2 ++ s.2)

/-- The cell that a glyph is drawn in, by its row and then its column. -/
def FramebufferCall.cell (charW charH : ℕ) : FramebufferCall → Option (ℕ ×ₗ ℕ)
  | .drawChar _ startX startY _ => some (toLex (startY.toNat / charH, startX.toNat / charW))
  | .clear _ => none

namespace Terminal

/-- The cell of the cursor. -/
def cell (t : Terminal) : ℕ ×ₗ ℕ := toLex (t.cursorY.toNat, t.cursorX.toNat)

/-! ## Where a character moves the cursor -/

theorem toNat_succ (x : BitVec 8) : (x + 1#8).toNat = (x.toNat + 1) % 256 := BitVec.toNat_add x 1#8

/-- **The loop ends at a tab stop**, as soon as there are enough rounds to reach
one. -/
theorem toNat_tabLoop {left : ℕ} {x : BitVec 8} (h : 3 ≤ x.toNat % 4 + left) :
    (tabLoop left x).toNat = (x.toNat / 4 + 1) * 4 % 256 := by
  induction left generalizing x with
  | zero =>
    rw [tabLoop, toNat_succ]
    omega
  | succ left ih =>
    have hsucc := toNat_succ x
    have hstop : (x + 1#8) % tabWidth ≠ 0#8 ↔ (x.toNat + 1) % 4 ≠ 0 := by
      rw [Ne, ← BitVec.toNat_inj, BitVec.toNat_umod, hsucc]
      show ¬ (x.toNat + 1) % 256 % 4 = 0 ↔ _
      omega
    rw [tabLoop]
    by_cases hround : (x.toNat + 1) % 4 ≠ 0
    · rw [if_pos (hstop.mpr hround), ih (by omega), hsucc]
      omega
    · rw [if_neg (mt hstop.mp hround), hsucc]
      omega

/-- The column that a character moves the cursor to, before it is stored in 8
bits. -/
def columnAfter (t : Terminal) (c : BitVec 8) : ℕ :=
  if c = 0x0A#8 then 0
  else if c = 0x09#8 then (t.cursorX.toNat / 4 + 1) * 4
  else t.cursorX.toNat + 1

/-- The row that it moves the cursor to, before the line is wrapped. -/
def rowAfter (t : Terminal) (c : BitVec 8) : ℕ :=
  if c = 0x0A#8 then t.cursorY.toNat + 1 else t.cursorY.toNat

/-- **No number overflows** when the terminal takes the character: neither the
column, nor the row at a line break or where the line is wrapped. -/
structure CursorFits (t : Terminal) (c : BitVec 8) : Prop where
  /-- The column. -/
  column_lt : t.columnAfter c < 256
  /-- The row. -/
  row_lt : t.rowAfter c < 256
  /-- The row behind a full line. -/
  wrap_lt : t.framebuffer.width.toNat < (t.columnAfter c + 1) * t.charW.toNat →
    t.rowAfter c + 1 < 256

/-- What the `switch` has done when it does not return. -/
structure Moved (t : Terminal) (c : BitVec 8) (t' : Terminal) (calls : List FramebufferCall) :
    Prop where
  /-- Only the cursor has moved. -/
  frame : t' = { t with cursorX := t'.cursorX, cursorY := t'.cursorY }
  /-- The column. -/
  column_eq : t'.cursorX.toNat = t.columnAfter c % 256
  /-- The row. -/
  row_eq : t'.cursorY.toNat = t.rowAfter c % 256
  /-- A glyph may have been drawn at the cursor. -/
  calls_eq : calls = [] ∨ calls = [.drawChar c (t.cursorX.setWidth 16 * t.charW.setWidth 16)
    (t.cursorY.setWidth 16 * t.charH.setWidth 16) t.fgColor]

/-- **The `switch`**, by what it does to the cursor. -/
theorem moveCursor_some {t t' : Terminal} {c : BitVec 8} {calls : List FramebufferCall}
    (h : t.moveCursor c = some (t', calls)) : Moved t c t' calls := by
  unfold moveCursor at h
  have hx := toNat_succ t.cursorX
  have hy := toNat_succ t.cursorY
  have hsame : t.cursorY.toNat = t.cursorY.toNat % 256 :=
    (Nat.mod_eq_of_lt t.cursorY.isLt).symm
  have htab : (tabLoop 3 t.cursorX).toNat = (t.cursorX.toNat / 4 + 1) * 4 % 256 :=
    toNat_tabLoop (Nat.le_add_left 3 _)
  by_cases hspace : c = 0x20#8
  · subst hspace
    obtain ⟨rfl, rfl⟩ := Prod.mk.inj (Option.some.inj h)
    exact ⟨rfl, hx, hsame, Or.inl rfl⟩
  · rw [if_neg hspace] at h
    by_cases hline : c = 0x0A#8
    · subst hline
      obtain ⟨rfl, rfl⟩ := Prod.mk.inj (Option.some.inj h)
      exact ⟨rfl, rfl, hy, Or.inl rfl⟩
    · rw [if_neg hline] at h
      have hrow : t.rowAfter c = t.cursorY.toNat := if_neg hline
      by_cases htabc : c = 0x09#8
      · subst htabc
        obtain ⟨rfl, rfl⟩ := Prod.mk.inj (Option.some.inj h)
        exact ⟨rfl, htab, hsame, Or.inl rfl⟩
      · rw [if_neg htabc] at h
        have hcolumn : t.columnAfter c = t.cursorX.toNat + 1 := by
          unfold columnAfter
          rw [if_neg hline, if_neg htabc]
        split at h
        · cases h
        · obtain ⟨rfl, rfl⟩ := Prod.mk.inj (Option.some.inj h)
          refine ⟨rfl, ?_, ?_, Or.inr rfl⟩
          · rw [hcolumn]
            exact hx
          · rw [hrow]
            exact hsame

/-! ## The order of the cells -/

theorem cell_lt_of_row_lt {a b : Terminal} (h : a.cursorY.toNat < b.cursorY.toNat) :
    a.cell < b.cell :=
  Prod.Lex.toLex_lt_toLex.mpr (Or.inl h)

theorem cell_lt_of_column_lt {a b : Terminal} (hrow : a.cursorY.toNat = b.cursorY.toNat)
    (h : a.cursorX.toNat < b.cursorX.toNat) : a.cell < b.cell :=
  Prod.Lex.toLex_lt_toLex.mpr (Or.inr ⟨hrow, h⟩)

/-- **A cursor that does not overflow moves on**: along the row or to a later
one. -/
theorem Moved.cell_lt {t t' : Terminal} {c : BitVec 8} {calls : List FramebufferCall}
    (h : Moved t c t' calls) (hfits : t.CursorFits c) : t.cell < t'.cell := by
  have hcolumn := h.column_eq
  have hrow := h.row_eq
  rw [Nat.mod_eq_of_lt hfits.column_lt] at hcolumn
  rw [Nat.mod_eq_of_lt hfits.row_lt] at hrow
  unfold columnAfter at hcolumn
  unfold rowAfter at hrow
  by_cases hline : c = 0x0A#8
  · rw [if_pos hline] at hrow
    exact cell_lt_of_row_lt (by omega)
  · rw [if_neg hline] at hcolumn hrow
    refine cell_lt_of_column_lt hrow.symm ?_
    split at hcolumn <;> omega

/-- Wrapping the line moves the cursor to the next row or not at all. -/
theorem Moved.cell_le_wrapLine {t t' : Terminal} {c : BitVec 8} {calls : List FramebufferCall}
    (h : Moved t c t' calls) (hfits : t.CursorFits c) : t'.cell ≤ t'.wrapLine.cell := by
  have hcolumn := h.column_eq
  have hrow := h.row_eq
  rw [Nat.mod_eq_of_lt hfits.column_lt] at hcolumn
  rw [Nat.mod_eq_of_lt hfits.row_lt] at hrow
  have hframe : t'.framebuffer = t.framebuffer ∧ t'.charW = t.charW := by
    rw [h.frame]
    exact ⟨rfl, rfl⟩
  unfold wrapLine
  rw [hframe.1, hframe.2, hcolumn]
  split
  · next hwide =>
    have hnext := toNat_succ t'.cursorY
    have hlt := hfits.wrap_lt hwide
    refine (cell_lt_of_row_lt ?_).le
    dsimp only
    omega
  · exact le_rfl

/-- Clearing the screen resets the log. -/
theorem ascending_wrapScreen {t : Terminal} {charW charH : ℕ} {log : ResetLog (ℕ ×ₗ ℕ)}
    {lo : WithBot (ℕ ×ₗ ℕ)} (hlo : lo < t.cell)
    (hrest : ∀ lo' : WithBot (ℕ ×ₗ ℕ), lo' < t.wrapScreen.1.cell → ResetLog.Ascending lo' log) :
    ResetLog.Ascending lo (t.wrapScreen.2.map (FramebufferCall.cell charW charH) ++ log) := by
  unfold wrapScreen at hrest ⊢
  split
  · next hhigh =>
    rw [if_pos hhigh] at hrest
    exact hrest ⊥ (WithBot.bot_lt_coe _)
  · next hhigh =>
    rw [if_neg hhigh] at hrest
    exact hrest lo hlo

/-- The pixel where a cell starts. -/
theorem toNat_setWidth_mul (x w : BitVec 8) :
    (x.setWidth 16 * w.setWidth 16 : BitVec 16).toNat = x.toNat * w.toNat := by
  have hx := x.isLt
  have hw := w.isLt
  have hprod : x.toNat * w.toNat ≤ 255 * 255 := Nat.mul_le_mul (by omega) (by omega)
  rw [BitVec.toNat_mul, BitVec.toNat_setWidth, BitVec.toNat_setWidth,
    Nat.mod_eq_of_lt (show x.toNat < 2 ^ 16 by omega),
    Nat.mod_eq_of_lt (show w.toNat < 2 ^ 16 by omega), Nat.mod_eq_of_lt (by omega)]

/-- A glyph is drawn in the cell of the cursor. -/
theorem cell_drawChar {t : Terminal} (hw : 0 < t.charW.toNat) (hh : 0 < t.charH.toNat)
    (c : BitVec 8) (color : BitVec 32) :
    FramebufferCall.cell t.charW.toNat t.charH.toNat
      (.drawChar c (t.cursorX.setWidth 16 * t.charW.setWidth 16)
        (t.cursorY.setWidth 16 * t.charH.setWidth 16) color) = some t.cell := by
  unfold FramebufferCall.cell cell
  dsimp only
  rw [toNat_setWidth_mul, toNat_setWidth_mul, Nat.mul_div_cancel _ hw, Nat.mul_div_cancel _ hh]

end Terminal

open Terminal

/-- What no character changes. -/
theorem terminalPutChar_frame (t : Terminal) (c : BitVec 8) :
    (terminalPutChar t c).1.charW = t.charW ∧ (terminalPutChar t c).1.charH = t.charH
      ∧ (terminalPutChar t c).1.framebuffer = t.framebuffer := by
  unfold terminalPutChar
  cases hmove : t.moveCursor c with
  | none => exact ⟨rfl, rfl, rfl⟩
  | some r =>
    obtain ⟨t', calls⟩ := r
    have hframe := (moveCursor_some hmove).frame
    dsimp only
    unfold wrapScreen wrapLine
    rw [hframe]
    split_ifs <;> exact ⟨rfl, rfl, rfl⟩

/-- **One character.** What it draws is beyond everything before the cursor, and
the cursor is then beyond that, or the screen is cleared. -/
theorem ascending_terminalPutChar {t : Terminal} {c : BitVec 8}
    (hw : 0 < t.charW.toNat) (hh : 0 < t.charH.toNat)
    (hfits : t.moveCursor c ≠ none → t.CursorFits c) {log : ResetLog (ℕ ×ₗ ℕ)}
    {lo : WithBot (ℕ ×ₗ ℕ)} (hlo : lo < t.cell)
    (hrest : ∀ lo' : WithBot (ℕ ×ₗ ℕ), lo' < (terminalPutChar t c).1.cell →
      ResetLog.Ascending lo' log) :
    ResetLog.Ascending lo ((terminalPutChar t c).2.map
      (FramebufferCall.cell t.charW.toNat t.charH.toNat) ++ log) := by
  unfold terminalPutChar at hrest ⊢
  cases hmove : t.moveCursor c with
  | none =>
    rw [hmove] at hrest
    exact hrest lo hlo
  | some r =>
    obtain ⟨t', calls⟩ := r
    rw [hmove] at hrest
    dsimp only at hrest ⊢
    have hmoved := moveCursor_some hmove
    have hfit := hfits (by rw [hmove]; exact Option.some_ne_none _)
    have hnext : (t.cell : WithBot (ℕ ×ₗ ℕ)) < t'.wrapLine.cell :=
      WithBot.coe_lt_coe.mpr (lt_of_lt_of_le (hmoved.cell_lt hfit) (hmoved.cell_le_wrapLine hfit))
    rw [List.map_append, List.append_assoc]
    -- nothing is drawn, or the glyph in the cell that the cursor leaves
    obtain rfl | rfl := hmoved.calls_eq
    · exact ascending_wrapScreen (lt_trans hlo hnext) hrest
    · rw [List.map_singleton, cell_drawChar hw hh]
      exact ⟨hlo, ascending_wrapScreen hnext hrest⟩

/-- **No number overflows in a text**: none does at any of its characters that
the terminal handles. -/
def RunFits (t : Terminal) : List (BitVec 8) → Prop
  | [] => True
  | c :: str => (t.moveCursor c ≠ none → t.CursorFits c) ∧ RunFits (terminalPutChar t c).1 str

/-- **A text without an overflow is drawn in reading order** between two clears
of the screen. -/
theorem ascending_terminalWriteString {t : Terminal} {str : List (BitVec 8)}
    (hw : 0 < t.charW.toNat) (hh : 0 < t.charH.toNat) (hfits : RunFits t str)
    {lo : WithBot (ℕ ×ₗ ℕ)} (hlo : lo < t.cell) :
    ResetLog.Ascending lo ((terminalWriteString t str).2.map
      (FramebufferCall.cell t.charW.toNat t.charH.toNat)) := by
  induction str generalizing t lo with
  | nil => trivial
  | cons c str ih =>
    obtain ⟨hframeW, hframeH, -⟩ := terminalPutChar_frame t c
    rw [terminalWriteString]
    dsimp only
    rw [List.map_append]
    refine ascending_terminalPutChar hw hh hfits.1 hlo fun lo' hlo' => ?_
    rw [← hframeW, ← hframeH]
    refine ih ?_ ?_ hfits.2 hlo'
    · rw [hframeW]
      exact hw
    · rw [hframeH]
      exact hh

/-! ## Screens of any size -/

namespace Terminal

/-- The cell of the cursor fits the screen. -/
structure OnScreen (t : Terminal) : Prop where
  /-- It fits the width. -/
  column_le : (t.cursorX.toNat + 1) * t.charW.toNat ≤ t.framebuffer.width.toNat
  /-- It fits the height. -/
  row_le : (t.cursorY.toNat + 1) * t.charH.toNat ≤ t.framebuffer.height.toNat

/-- The screen has room for one cell. -/
structure HasCell (t : Terminal) : Prop where
  /-- The width of a cell. -/
  width_le : t.charW.toNat ≤ t.framebuffer.width.toNat
  /-- The height of a cell. -/
  height_le : t.charH.toNat ≤ t.framebuffer.height.toNat

theorem HasCell.onScreen {t : Terminal} (h : t.HasCell) (hx : t.cursorX = 0#8)
    (hy : t.cursorY = 0#8) : t.OnScreen := by
  constructor
  · rw [hx]
    exact (Nat.one_mul _).trans_le h.width_le
  · rw [hy]
    exact (Nat.one_mul _).trans_le h.height_le

/-- **After the two tests the cursor is on the screen.** -/
theorem onScreen_wrap {t : Terminal} (h : t.HasCell) : t.wrapLine.wrapScreen.1.OnScreen := by
  have hline : t.wrapLine.HasCell
      ∧ (t.wrapLine.cursorX.toNat + 1) * t.charW.toNat ≤ t.framebuffer.width.toNat
      ∧ t.wrapLine.charW = t.charW ∧ t.wrapLine.framebuffer = t.framebuffer := by
    unfold wrapLine
    split
    · exact ⟨⟨h.width_le, h.height_le⟩, (Nat.one_mul _).trans_le h.width_le, rfl, rfl⟩
    · next hfits => exact ⟨h, Nat.le_of_not_lt hfits, rfl, rfl⟩
  obtain ⟨hcell, hcolumn, hcharW, hfb⟩ := hline
  rw [← hcharW, ← hfb] at hcolumn
  generalize t.wrapLine = t' at hcell hcolumn
  unfold wrapScreen
  split
  · have hzero : ({ t' with cursorX := 0#8, cursorY := 0#8 } : Terminal).HasCell :=
      ⟨hcell.width_le, hcell.height_le⟩
    exact hzero.onScreen rfl rfl
  · next hfits => exact ⟨hcolumn, Nat.le_of_not_lt hfits⟩

/-- No character takes the cursor off the screen. -/
theorem OnScreen.putChar {t : Terminal} (h : t.OnScreen) (hcell : t.HasCell) (c : BitVec 8) :
    (terminalPutChar t c).1.OnScreen := by
  unfold terminalPutChar
  cases hmove : t.moveCursor c with
  | none => exact h
  | some r =>
    obtain ⟨t', calls⟩ := r
    have hcell' : t'.HasCell := by
      rw [(moveCursor_some hmove).frame]
      exact ⟨hcell.width_le, hcell.height_le⟩
    exact onScreen_wrap hcell'

/-- **On a screen of at most 252 columns and 255 rows no number overflows.** -/
theorem OnScreen.cursorFits {t : Terminal} (h : t.OnScreen)
    (hw : t.framebuffer.width.toNat < 253 * t.charW.toNat)
    (hh : t.framebuffer.height.toNat < 256 * t.charH.toNat) (c : BitVec 8) : t.CursorFits c := by
  have hx : t.cursorX.toNat + 1 < 253 := Nat.lt_of_mul_lt_mul_right (lt_of_le_of_lt h.column_le hw)
  have hy : t.cursorY.toNat + 1 < 256 := Nat.lt_of_mul_lt_mul_right (lt_of_le_of_lt h.row_le hh)
  constructor
  · -- a tab goes at most from column 251 to column 252
    unfold columnAfter
    split_ifs <;> omega
  · unfold rowAfter
    split_ifs <;> omega
  · intro hwide
    unfold rowAfter
    split_ifs with hline
    · -- a line break goes to column 0, which fits the width
      unfold columnAfter at hwide
      rw [if_pos hline] at hwide
      have hone : (0 + 1) * t.charW.toNat ≤ (t.cursorX.toNat + 1) * t.charW.toNat :=
        Nat.mul_le_mul_right _ (by omega)
      exact absurd h.column_le (by omega)
    · omega

end Terminal

open Terminal

/-- So no text overflows on such a screen. -/
theorem runFits_of_onScreen {t : Terminal} (h : t.OnScreen) (hcell : t.HasCell)
    (hw : t.framebuffer.width.toNat < 253 * t.charW.toNat)
    (hh : t.framebuffer.height.toNat < 256 * t.charH.toNat) (str : List (BitVec 8)) :
    RunFits t str := by
  induction str generalizing t with
  | nil => trivial
  | cons c str ih =>
    obtain ⟨hcharW, hcharH, hfb⟩ := terminalPutChar_frame t c
    refine ⟨fun _ => h.cursorFits hw hh c, ih (h.putChar hcell c) ?_ ?_ ?_⟩
    · constructor
      · rw [hcharW, hfb]
        exact hcell.width_le
      · rw [hcharH, hfb]
        exact hcell.height_le
    · rw [hcharW, hfb]
      exact hw
    · rw [hcharH, hfb]
      exact hh

/-! ## Texts that are drawn over -/

/-- A text in two parts. -/
theorem terminalWriteString_append (t : Terminal) (str str' : List (BitVec 8)) :
    terminalWriteString t (str ++ str')
      = ((terminalWriteString (terminalWriteString t str).1 str').1,
        (terminalWriteString t str).2 ++ (terminalWriteString (terminalWriteString t str).1 str').2)
    := by
  induction str generalizing t with
  | nil => rfl
  | cons c str ih =>
    rw [List.cons_append, terminalWriteString, ih, terminalWriteString]
    dsimp only
    rw [List.append_assoc]

/-- The terminal with the kernel's cells and the cursor in this cell. -/
def terminalAt (framebuffer : LimineFramebuffer) (x y : BitVec 8) : Terminal :=
  ⟨x, y, 13#8, 22#8, 0xFFFFFF#32, framebuffer⟩

section At

variable {framebuffer : LimineFramebuffer} {x y x' y' : BitVec 8}

theorem moveCursor_space : (terminalAt framebuffer x y).moveCursor 0x20#8
    = some (terminalAt framebuffer (x + 1#8) y, []) :=
  if_pos rfl

theorem moveCursor_line : (terminalAt framebuffer x y).moveCursor 0x0A#8
    = some (terminalAt framebuffer 0#8 (y + 1#8), []) :=
  (if_neg (by decide)).trans (if_pos rfl)

theorem moveCursor_tab : (terminalAt framebuffer x y).moveCursor 0x09#8
    = some (terminalAt framebuffer (tabLoop 3 x) y, []) :=
  (if_neg (by decide)).trans ((if_neg (by decide)).trans (if_pos rfl))

/-- The letter A, for any glyph. -/
theorem moveCursor_glyph : (terminalAt framebuffer x y).moveCursor 0x41#8
    = some (terminalAt framebuffer (x + 1#8) y,
      [.drawChar 0x41#8 (x.setWidth 16 * 13#16) (y.setWidth 16 * 22#16) 0xFFFFFF#32]) :=
  (if_neg (by decide)).trans ((if_neg (by decide)).trans ((if_neg (by decide)).trans
    (if_neg (by decide))))

/-- A character after which the cursor is on the screen. -/
theorem terminalPutChar_at {c : BitVec 8} {calls : List FramebufferCall}
    (hmove : (terminalAt framebuffer x y).moveCursor c = some (terminalAt framebuffer x' y', calls))
    (hw : (x'.toNat + 1) * 13 ≤ framebuffer.width.toNat)
    (hh : (y'.toNat + 1) * 22 ≤ framebuffer.height.toNat) :
    terminalPutChar (terminalAt framebuffer x y) c = (terminalAt framebuffer x' y', calls) := by
  have hline : (terminalAt framebuffer x' y').wrapLine = terminalAt framebuffer x' y' :=
    if_neg (Nat.not_lt_of_le hw)
  have hscreen : (terminalAt framebuffer x' y').wrapScreen = (terminalAt framebuffer x' y', []) :=
    if_neg (Nat.not_lt_of_le hh)
  unfold terminalPutChar
  rw [hmove]
  dsimp only
  rw [hline, hscreen, List.append_nil]

/-- A row of spaces. -/
theorem terminalWriteString_spaces {n : ℕ} (hx : x.toNat + n < 256)
    (hw : (x.toNat + n + 1) * 13 ≤ framebuffer.width.toNat)
    (hh : (y.toNat + 1) * 22 ≤ framebuffer.height.toNat) :
    terminalWriteString (terminalAt framebuffer x y) (List.replicate n 0x20#8)
      = (terminalAt framebuffer (x + BitVec.ofNat 8 n) y, []) := by
  induction n generalizing x with
  | zero => rw [show x + BitVec.ofNat 8 0 = x from BitVec.add_zero x]; rfl
  | succ n ih =>
    have hnext : (x + 1#8).toNat = x.toNat + 1 := by
      rw [toNat_succ]
      omega
    have harith : (x + 1#8).toNat + n < 256
        ∧ ((x + 1#8).toNat + 1) * 13 ≤ framebuffer.width.toNat
        ∧ ((x + 1#8).toNat + n + 1) * 13 ≤ framebuffer.width.toNat := by
      clear ih
      omega
    have hsum : x + BitVec.ofNat 8 (n + 1) = x + 1#8 + BitVec.ofNat 8 n := by
      rw [Nat.add_comm n 1, BitVec.ofNat_add, BitVec.add_assoc]
    have hput : terminalPutChar (terminalAt framebuffer x y) 0x20#8
        = (terminalAt framebuffer (x + 1#8) y, []) :=
      terminalPutChar_at moveCursor_space harith.2.1 hh
    rw [List.replicate_succ, terminalWriteString, hput, hsum]
    dsimp only
    rw [ih harith.1 harith.2.2]
    rfl

/-- A column of line breaks. -/
theorem terminalWriteString_lines {n : ℕ} (hy : y.toNat + n < 256)
    (hw : 13 ≤ framebuffer.width.toNat)
    (hh : (y.toNat + n + 1) * 22 ≤ framebuffer.height.toNat) :
    terminalWriteString (terminalAt framebuffer 0#8 y) (List.replicate n 0x0A#8)
      = (terminalAt framebuffer 0#8 (y + BitVec.ofNat 8 n), []) := by
  induction n generalizing y with
  | zero => rw [show y + BitVec.ofNat 8 0 = y from BitVec.add_zero y]; rfl
  | succ n ih =>
    have hnext : (y + 1#8).toNat = y.toNat + 1 := by
      rw [toNat_succ]
      omega
    have harith : (y + 1#8).toNat + n < 256
        ∧ ((y + 1#8).toNat + 1) * 22 ≤ framebuffer.height.toNat
        ∧ ((y + 1#8).toNat + n + 1) * 22 ≤ framebuffer.height.toNat := by
      clear ih
      omega
    have hsum : y + BitVec.ofNat 8 (n + 1) = y + 1#8 + BitVec.ofNat 8 n := by
      rw [Nat.add_comm n 1, BitVec.ofNat_add, BitVec.add_assoc]
    have hput : terminalPutChar (terminalAt framebuffer 0#8 y) 0x0A#8
        = (terminalAt framebuffer 0#8 (y + 1#8), []) :=
      terminalPutChar_at moveCursor_line hw harith.2.1
    rw [List.replicate_succ, terminalWriteString, hput, hsum]
    dsimp only
    rw [ih harith.1 harith.2.2]
    rfl

end At

/-- The cells in which a text is drawn by a terminal with the kernel's cells. -/
def drawnCells (framebuffer : LimineFramebuffer) (str : List (BitVec 8)) :
    ResetLog (ℕ ×ₗ ℕ) :=
  (terminalWriteString (terminalInit framebuffer 13#8 22#8) str).2.map
    (FramebufferCall.cell 13 22)

/-- Two glyphs in one cell, or the second one before the first. -/
theorem not_ascends_of_pair {log : ResetLog (ℕ ×ₗ ℕ)} {a b : ℕ ×ₗ ℕ}
    (hlog : ∃ rest, log = some a :: some b :: rest) (h : ¬ a < b) : ¬ log.AscendsBetweenResets := by
  intro hasc
  obtain ⟨rest, hrest⟩ := hlog
  exact h (hasc [] a [] b rest hrest List.not_mem_nil)

section Overdrawn

variable {framebuffer : LimineFramebuffer}

/-- **A tab at column 252 goes back to column 0 of the same row.** -/
theorem not_ascends_of_wide (hw : 253 * 13 ≤ framebuffer.width.toNat)
    (hh : 22 ≤ framebuffer.height.toNat) :
    ¬ (drawnCells framebuffer
      (0x41#8 :: (List.replicate 251 0x20#8 ++ [0x09#8, 0x41#8]))).AscendsBetweenResets := by
  have hglyph : terminalPutChar (terminalAt framebuffer 0#8 0#8) 0x41#8
      = (terminalAt framebuffer 1#8 0#8, [.drawChar 0x41#8 0#16 0#16 0xFFFFFF#32]) :=
    terminalPutChar_at moveCursor_glyph (le_trans (by decide) hw) hh
  have hspaces : terminalWriteString (terminalAt framebuffer 1#8 0#8) (List.replicate 251 0x20#8)
      = (terminalAt framebuffer 252#8 0#8, []) :=
    terminalWriteString_spaces (by decide) hw hh
  have htab : terminalPutChar (terminalAt framebuffer 252#8 0#8) 0x09#8
      = (terminalAt framebuffer 0#8 0#8, []) :=
    terminalPutChar_at moveCursor_tab (le_trans (by decide) hw) hh
  have hcalls : (terminalWriteString (terminalAt framebuffer 0#8 0#8)
      (0x41#8 :: (List.replicate 251 0x20#8 ++ [0x09#8, 0x41#8]))).2
      = [.drawChar 0x41#8 0#16 0#16 0xFFFFFF#32, .drawChar 0x41#8 0#16 0#16 0xFFFFFF#32] := by
    rw [terminalWriteString, hglyph]
    dsimp only
    rw [terminalWriteString_append, hspaces, terminalWriteString, htab]
    dsimp only
    rw [terminalWriteString, hglyph]
    rfl
  refine not_ascends_of_pair ⟨[], ?_⟩ (lt_irrefl (toLex (0, 0)))
  exact congrArg (List.map (FramebufferCall.cell 13 22)) hcalls

/-- **A line that is wrapped in row 255 goes on in row 0.** -/
theorem terminalPutChar_wrap (hw : framebuffer.width.toNat < 26)
    (hh : 22 ≤ framebuffer.height.toNat) :
    terminalPutChar (terminalAt framebuffer 0#8 255#8) 0x41#8
      = (terminalAt framebuffer 0#8 0#8, [.drawChar 0x41#8 0#16 5610#16 0xFFFFFF#32]) := by
  have hline : (terminalAt framebuffer 1#8 255#8).wrapLine = terminalAt framebuffer 0#8 0#8 := by
    have hwide : framebuffer.width.toNat < ((1#8 : BitVec 8).toNat + 1) * (13#8 : BitVec 8).toNat :=
      hw
    have hzero : 255#8 + 1#8 = 0#8 := by decide
    exact (if_pos hwide).trans (congrArg (terminalAt framebuffer 0#8) hzero)
  have hscreen : (terminalAt framebuffer 0#8 0#8).wrapScreen
      = (terminalAt framebuffer 0#8 0#8, []) :=
    if_neg (Nat.not_lt_of_le hh)
  have hmove : (terminalAt framebuffer 0#8 255#8).moveCursor 0x41#8
      = some (terminalAt framebuffer 1#8 255#8, [.drawChar 0x41#8 0#16 5610#16 0xFFFFFF#32]) :=
    moveCursor_glyph
  unfold terminalPutChar
  rw [hmove]
  dsimp only
  rw [hline, hscreen]
  rfl

/-- **A line break in row 255 goes back to row 0**, and so does a line that is
wrapped there. -/
theorem not_ascends_of_high (hw : 13 ≤ framebuffer.width.toNat)
    (hh : 256 * 22 ≤ framebuffer.height.toNat) :
    ∃ str, ¬ (drawnCells framebuffer str).AscendsBetweenResets := by
  have hone : 22 ≤ framebuffer.height.toNat := le_trans (by decide) hh
  have hlines : terminalWriteString (terminalAt framebuffer 0#8 0#8)
      (List.replicate 255 0x0A#8) = (terminalAt framebuffer 0#8 255#8, []) :=
    terminalWriteString_lines (by decide) hw hh
  have hrow : ¬ (toLex (255, 0) : ℕ ×ₗ ℕ) < toLex (0, 0) := by
    rw [Prod.Lex.toLex_lt_toLex]
    omega
  -- after the text `str'` the cursor is in the first cell, and one glyph was drawn below it
  obtain ⟨str', hstr'⟩ : ∃ str', terminalWriteString (terminalAt framebuffer 0#8 255#8) str'
      = (terminalAt framebuffer 0#8 0#8, [.drawChar 0x41#8 0#16 5610#16 0xFFFFFF#32]) := by
    by_cases hnarrow : framebuffer.width.toNat < 26
    · -- on a screen of one column the glyph wraps the line
      refine ⟨[0x41#8], ?_⟩
      rw [terminalWriteString, terminalPutChar_wrap hnarrow hone]
      rfl
    · have hglyph : terminalPutChar (terminalAt framebuffer 0#8 255#8) 0x41#8
          = (terminalAt framebuffer 1#8 255#8, [.drawChar 0x41#8 0#16 5610#16 0xFFFFFF#32]) :=
        terminalPutChar_at moveCursor_glyph (Nat.le_of_not_lt hnarrow) hh
      have hbreak : terminalPutChar (terminalAt framebuffer 1#8 255#8) 0x0A#8
          = (terminalAt framebuffer 0#8 0#8, []) :=
        terminalPutChar_at moveCursor_line hw hone
      refine ⟨[0x41#8, 0x0A#8], ?_⟩
      rw [terminalWriteString, hglyph]
      dsimp only
      rw [terminalWriteString, hbreak]
      rfl
  have hlast : ∃ calls, (terminalPutChar (terminalAt framebuffer 0#8 0#8) 0x41#8).2
      = .drawChar 0x41#8 0#16 0#16 0xFFFFFF#32 :: calls := by
    unfold terminalPutChar
    rw [moveCursor_glyph]
    exact ⟨_, rfl⟩
  obtain ⟨calls, hcalls⟩ := hlast
  refine ⟨List.replicate 255 0x0A#8 ++ (str' ++ [0x41#8]), not_ascends_of_pair
    ⟨calls.map (FramebufferCall.cell 13 22), ?_⟩ hrow⟩
  show (terminalWriteString (terminalAt framebuffer 0#8 0#8) _).2.map _ = _
  rw [terminalWriteString_append, hlines]
  dsimp only
  rw [terminalWriteString_append, hstr']
  dsimp only
  rw [terminalWriteString]
  dsimp only
  rw [hcalls, terminalWriteString]
  dsimp only
  rw [List.append_nil]
  rfl

end Overdrawn

/-- **On which screens no text is drawn over.** On any screen a text without an
overflow is drawn in reading order between two clears. Every text is exactly if
the screen has at most 252 columns and 255 rows. -/
theorem terminal_ascends_iff (framebuffer : LimineFramebuffer)
    (hw : 13 ≤ framebuffer.width.toNat) (hh : 22 ≤ framebuffer.height.toNat) :
    (∀ str, RunFits (terminalInit framebuffer 13#8 22#8) str →
      (drawnCells framebuffer str).AscendsBetweenResets)
    ∧ ((∀ str, (drawnCells framebuffer str).AscendsBetweenResets)
      ↔ framebuffer.width.toNat < 253 * 13 ∧ framebuffer.height.toNat < 256 * 22) := by
  have hfits : ∀ str, RunFits (terminalInit framebuffer 13#8 22#8) str →
      (drawnCells framebuffer str).AscendsBetweenResets := by
    intro str hstr
    have hcharW : 0 < (13#8).toNat := by decide
    have hcharH : 0 < (22#8).toNat := by decide
    have hasc := ascending_terminalWriteString (t := terminalInit framebuffer 13#8 22#8)
      hcharW hcharH hstr (WithBot.bot_lt_coe _)
    exact hasc.ascendsBetweenResets
  refine ⟨hfits, fun hall => ⟨?_, ?_⟩, fun hsize str => hfits str ?_⟩
  · by_contra hwide
    exact not_ascends_of_wide (Nat.le_of_not_lt hwide) hh (hall _)
  · by_contra hhigh
    obtain ⟨str, hstr⟩ := not_ascends_of_high hw (Nat.le_of_not_lt hhigh)
    exact hstr (hall str)
  · have hcell : (terminalInit framebuffer 13#8 22#8).HasCell := ⟨hw, hh⟩
    exact runFits_of_onScreen (hcell.onScreen rfl rfl) hcell hsize.1 hsize.2 str

/-- A screen of 1920 by 1080 pixels is not drawn over by a letter, 251 spaces, a tab
and another letter. -/
theorem terminal_ascends_fullHd : (drawnCells ⟨1920#64, 1080#64⟩
    (0x41#8 :: (List.replicate 251 0x20#8 ++ [0x09#8, 0x41#8]))).AscendsBetweenResets :=
  (terminal_ascends_iff ⟨1920#64, 1080#64⟩ (by decide) (by decide)).2.mpr
    ⟨by decide, by decide⟩ _

/-- **A screen of 3840 by 2160 pixels is drawn over** by a letter, 251 spaces, a
tab and another letter. -/
theorem terminal_not_ascends : ¬ (drawnCells ⟨3840#64, 2160#64⟩
    (0x41#8 :: (List.replicate 251 0x20#8 ++ [0x09#8, 0x41#8]))).AscendsBetweenResets :=
  not_ascends_of_wide (by decide) (by decide)
