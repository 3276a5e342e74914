import Joes.Display
import Joes.TextScreen

/-!
# What the screen shows

The framebuffer shows the text that was written (`TextScreen`) as long as glyphs are only
drawn where there are none. `Shows` is the invariant, which every call of the terminal
keeps (`Shows.step`). The pixel of the letter R that lies behind its cell is the exception:
in the last column it is behind the row, and if there is no memory between that row and the
next one it is the first pixel of the latter (`display_shows_iff`).

The invariant says of every pixel of the screen that it is what the text has there: a pixel of
the glyph of its cell, or of the foot of the letter R in the cell to the left, or else the
background. Drawing a glyph paints the pixels that have their ink from it, and no others, as
the places it stores to have indices of their own (`paint_drawChar`). This is where the
room for the foot is needed. Moving the cursor changes no pixel, and the cells from the cursor
on are always blank, so nothing is drawn where there is a glyph. Behind the last row everything
is cleared, which is a text without glyphs again.

The condition is exact, since without that room there is a text that goes wrong: blanks to the
last column, and an R. Its foot is then the first pixel of a row, where the text has nothing
(`not_shows_of_no_room`).
-/

namespace TextScreen

/-- The text that a call makes of a text. -/
def step (columns rows : ℕ) (s : TextScreen) : TerminalCall → TextScreen
  | .putChar c => s.put columns rows c
  | .setColor color => { s with color := color }

/-- The text of some calls. -/
def run (columns rows : ℕ) (s : TextScreen) (calls : List TerminalCall) : TextScreen :=
  calls.foldl (step columns rows) s

end TextScreen

/-- **The display shows the text**: the terminal's cursor is that of the text, and so is
every pixel of the screen. -/
structure Shows (framebuffer : LimineFramebuffer) (format : FramebufferFormat) (d : Display)
    (s : TextScreen) : Prop extends SetUp framebuffer d.terminal where
  color_eq : d.terminal.fgColor = s.color
  column_eq : d.terminal.cursorX.toNat = s.column
  row_eq : d.terminal.cursorY.toNat = s.row
  blank : s.Blank
  pixel_eq : ∀ x < framebuffer.width.toNat, ∀ y < framebuffer.height.toNat,
    d.mem (format.indexOf x y) = s.image x y

/-- The columns of the screen, -/
def LimineFramebuffer.columns (framebuffer : LimineFramebuffer) : ℕ := framebuffer.width.toNat / 13

/-- and its rows. -/
def LimineFramebuffer.rows (framebuffer : LimineFramebuffer) : ℕ := framebuffer.height.toNat / 22

/-- **There is room for the foot of an R** behind the last column: a pixel that the cells do
not take, or memory between two rows. -/
def FootRoom (framebuffer : LimineFramebuffer) (format : FramebufferFormat) : Prop :=
  13 * framebuffer.columns < format.stride

instance (framebuffer : LimineFramebuffer) (format : FramebufferFormat) :
    Decidable (FootRoom framebuffer format) :=
  inferInstanceAs (Decidable (_ < _))

section Refinement

variable {framebuffer : LimineFramebuffer} {format : FramebufferFormat} {d : Display}
  {s : TextScreen} {c : BitVec 8} {mem : PixelMemory}

/-- The cursor of a text on the screen. -/
structure CursorOn (framebuffer : LimineFramebuffer) (s : TextScreen) : Prop where
  column_lt : s.column < framebuffer.columns
  row_lt : s.row < framebuffer.rows

theorem Shows.cursorOn (h : Shows framebuffer format d s) (hon : d.terminal.OnScreen) :
    CursorOn framebuffer s := by
  obtain ⟨hcolumn, hrow⟩ := hon
  rw [h.framebuffer_eq, h.charW_eq, h.column_eq] at hcolumn
  rw [h.framebuffer_eq, h.charH_eq, h.row_eq] at hrow
  change (s.column + 1) * 13 ≤ _ at hcolumn
  change (s.row + 1) * 22 ≤ _ at hrow
  refine ⟨?_, ?_⟩
  · unfold LimineFramebuffer.columns
    omega
  · unfold LimineFramebuffer.rows
    omega

/-- **Drawing the glyph of a cell** inks the pixels of the glyph. -/
theorem paint_drawChar (hscreen : TerminalScreen framebuffer format)
    (hroom : FootRoom framebuffer format) (hon : CursorOn framebuffer s) {startX startY : BitVec 16}
    (hstartX : startX.toNat = 13 * s.column) (hstartY : startY.toNat = 22 * s.row)
    {x y : ℕ} (hx : x < framebuffer.width.toNat) (hy : y < framebuffer.height.toNat) :
    paint (framebufferDrawChar format c startX startY s.color) mem (format.indexOf x y)
      = (s.inkAtCursor (c, s.color) x y).getD (mem (format.indexOf x y)) := by
  have hrows : 22 * framebuffer.rows ≤ framebuffer.height.toNat := Nat.mul_div_le _ _
  have hcolumn := hon.column_lt
  have hrow := hon.row_lt
  have hstride := hscreen.le_stride
  unfold FootRoom at hroom
  by_cases hink : ∃ color, s.inkAtCursor (c, s.color) x y = some color
  · obtain ⟨color, hcolor⟩ := hink
    have hcase := hcolor
    unfold TextScreen.inkAtCursor at hcase
    split at hcase
    · next hmem =>
      obtain ⟨hdx, hdy⟩ := TextScreen.ink_bounds hcase
      unfold TextCell.ink at hcase
      split at hcase
      · next hpixel =>
        obtain rfl := Option.some.inj hcase
        rw [hcolor, Option.getD_some]
        obtain ⟨p, hp, rfl, rfl⟩ : ∃ p ∈ framebufferDrawChar format c startX startY s.color,
            p.x = x ∧ p.y = y := by
          refine ⟨_, mem_framebufferDrawChar.mpr ⟨y - 22 * s.row, hdy, x - 13 * s.column,
            by unfold characterWidth; omega, hpixel, rfl⟩, ?_, ?_⟩ <;> dsimp only <;> omega
        exact paint_of_mem (fun p => color_drawChar)
          ⟨p, hp, index_drawChar hscreen.holds.bpp_eq hp⟩
      · cases hcase
    · cases hcase
  · rw [Option.eq_none_iff_forall_not_mem.mpr fun color hcolor => hink ⟨color, hcolor⟩]
    refine paint_of_not_mem fun p hp hindex => hink ⟨s.color, ?_⟩
    rw [index_drawChar hscreen.holds.bpp_eq hp] at hindex
    obtain ⟨dy, hdy, dx, -, hpixel, rfl⟩ := mem_framebufferDrawChar.mp hp
    have hdx := charset_columns hpixel
    unfold characterHeight at hdy
    dsimp only at hindex
    obtain ⟨rfl, rfl⟩ := indexOf_inj hscreen.holds (by omega) (by omega) (by omega) hy hindex
    unfold TextScreen.inkAtCursor TextCell.ink
    rw [hstartX, hstartY, if_pos ⟨Nat.le_add_right _ _, Nat.le_add_right _ _⟩,
      Nat.add_sub_cancel_left, Nat.add_sub_cancel_left, if_pos hpixel]

/-- **Clearing the screen.** -/
theorem paint_clear (hscreen : TerminalScreen framebuffer format) {color : BitVec 32}
    {x y : ℕ} (hx : x < framebuffer.width.toNat) (hy : y < framebuffer.height.toNat) :
    paint (framebufferClear framebuffer format color) mem (format.indexOf x y) = color := by
  obtain ⟨p, hp, rfl, rfl⟩ : ∃ p ∈ framebufferClear framebuffer format color, p.x = x ∧ p.y = y :=
    ⟨_, mem_framebufferClear.mpr ⟨y, hy, x, hx, rfl⟩, rfl, rfl⟩
  exact paint_of_mem (fun p => color_clear) ⟨p, hp, index_clear hscreen.holds.bpp_eq hp⟩

/-- A text whose cursor is elsewhere, with the same pixels. -/
theorem Shows.withCursor (h : Shows framebuffer format d s) {x y : BitVec 8} {row column : ℕ}
    (hx : x.toNat = column) (hy : y.toNat = row)
    (hle : toLex (s.row, s.column) ≤ toLex (row, column)) :
    Shows framebuffer format ⟨{ d.terminal with cursorX := x, cursorY := y }, d.mem⟩
      { s with row := row, column := column } where
  toSetUp := ⟨h.framebuffer_eq, h.charW_eq, h.charH_eq⟩
  color_eq := h.color_eq
  column_eq := hx
  row_eq := hy
  blank := h.blank.mono rfl hle
  pixel_eq := h.pixel_eq

/-- **The `switch` of `terminal_put_char`.** -/
theorem Shows.move (h : Shows framebuffer format d s) (hscreen : TerminalScreen framebuffer format)
    (hroom : FootRoom framebuffer format) (hon : d.terminal.OnScreen)
    (hfits : d.terminal.CursorFits c) :
    (d.terminal.moveCursor c = none ∧ s.move c = none) ∨
      ∃ t calls s', d.terminal.moveCursor c = some (t, calls) ∧ s.move c = some s' ∧
        Shows framebuffer format
          ⟨t, paint (calls.flatMap (FramebufferCall.writes framebuffer format)) d.mem⟩ s' := by
  have hcolumn := hfits.column_lt
  have hrow := hfits.row_lt
  unfold Terminal.columnAfter at hcolumn
  unfold Terminal.rowAfter at hrow
  have hsucc : ∀ x : BitVec 8, x.toNat + 1 < 256 → (x + 1#8).toNat = x.toNat + 1 := by
    intro x hx
    rw [Terminal.toNat_succ, Nat.mod_eq_of_lt hx]
  unfold Terminal.moveCursor TextScreen.move
  by_cases hspace : c = 0x20#8
  · subst hspace
    refine .inr ⟨_, _, _, if_pos rfl, if_pos rfl, ?_⟩
    refine h.withCursor ?_ h.row_eq (Prod.Lex.toLex_le_toLex.mpr (Or.inr ⟨rfl, Nat.le_succ _⟩))
    rw [hsucc _ hcolumn, h.column_eq]
  rw [if_neg hspace, if_neg hspace]
  by_cases hline : c = 0x0A#8
  · subst hline
    refine .inr ⟨_, _, _, if_pos rfl, if_pos rfl, ?_⟩
    refine h.withCursor rfl ?_ (Prod.Lex.toLex_le_toLex.mpr (Or.inl (Nat.lt_succ_self _)))
    rw [hsucc _ hrow, h.row_eq]
  rw [if_neg hline] at hcolumn
  rw [if_neg hline, if_neg hline]
  by_cases htab : c = 0x09#8
  · subst htab
    refine .inr ⟨_, _, _, if_pos rfl, if_pos rfl, ?_⟩
    refine h.withCursor ?_ h.row_eq
      (Prod.Lex.toLex_le_toLex.mpr (Or.inr ⟨rfl, by dsimp only; omega⟩))
    rw [if_pos rfl] at hcolumn
    rw [Terminal.toNat_tabLoop (Nat.le_add_left 3 _), Nat.mod_eq_of_lt hcolumn, h.column_eq]
  rw [if_neg htab] at hcolumn
  rw [if_neg htab, if_neg htab]
  by_cases hother : c.toNat < 32 ∨ 126 < c.toNat
  · exact .inl ⟨if_pos hother, if_pos hother⟩
  -- A glyph is drawn in the cell of the cursor, before the cursor moves on.
  · refine .inr ⟨_, _, _, if_neg hother, if_neg hother, ?_⟩
    have hstartX : (d.terminal.cursorX.setWidth 16 * d.terminal.charW.setWidth 16).toNat
        = 13 * s.column := by
      rw [Terminal.toNat_setWidth_mul, h.charW_eq, h.column_eq, Nat.mul_comm]
      rfl
    have hstartY : (d.terminal.cursorY.setWidth 16 * d.terminal.charH.setWidth 16).toNat
        = 22 * s.row := by
      rw [Terminal.toNat_setWidth_mul, h.charH_eq, h.row_eq, Nat.mul_comm]
      rfl
    refine ⟨⟨h.framebuffer_eq, h.charW_eq, h.charH_eq⟩, h.color_eq, ?_, h.row_eq, ?_, ?_⟩
    · rw [hsucc _ hcolumn, h.column_eq]
    · exact h.blank.move (c := c) (by
        unfold TextScreen.move
        rw [if_neg hspace, if_neg hline, if_neg htab, if_neg hother])
    · intro x hx y hy
      rw [List.flatMap_singleton, h.color_eq]
      show paint (framebufferDrawChar _ _ _ _ _) _ _ = (s.write (c, s.color)).image x y
      rw [paint_drawChar hscreen hroom (h.cursorOn hon) hstartX hstartY hx hy, h.pixel_eq x hx y hy,
        TextScreen.image_write h.blank]

/-- The row behind a full line is a number of 8 bits. -/
theorem Shows.row_lt {t : Terminal} {s' : TextScreen} {calls : List FramebufferCall}
    (h' : Shows framebuffer format ⟨t, mem⟩ s') (hfits : d.terminal.CursorFits c)
    (h : Shows framebuffer format d s) (hmove : d.terminal.moveCursor c = some (t, calls)) :
    framebuffer.columns ≤ s'.column → s'.row + 1 < 256 := by
  intro hfull
  have hmoved := Terminal.moveCursor_some hmove
  have hcolumn : s'.column = d.terminal.columnAfter c := by
    rw [← h'.column_eq]
    exact hmoved.column_eq.trans (Nat.mod_eq_of_lt hfits.column_lt)
  have hrow : s'.row = d.terminal.rowAfter c := by
    rw [← h'.row_eq]
    exact hmoved.row_eq.trans (Nat.mod_eq_of_lt hfits.row_lt)
  rw [hrow]
  refine hfits.wrap_lt ?_
  rw [h.framebuffer_eq, h.charW_eq, ← hcolumn]
  show _ < (s'.column + 1) * 13
  unfold LimineFramebuffer.columns at hfull
  omega

/-- **The test that wraps a line.** -/
theorem Shows.wrapLine (h : Shows framebuffer format d s)
    (hrow : framebuffer.columns ≤ s.column → s.row + 1 < 256) :
    Shows framebuffer format ⟨d.terminal.wrapLine, d.mem⟩ (s.wrapRow framebuffer.columns) := by
  have hwide : d.terminal.framebuffer.width.toNat
      < (d.terminal.cursorX.toNat + 1) * d.terminal.charW.toNat ↔
      framebuffer.columns ≤ s.column := by
    rw [h.framebuffer_eq, h.charW_eq, h.column_eq]
    show _ < (s.column + 1) * 13 ↔ _
    unfold LimineFramebuffer.columns
    omega
  unfold Terminal.wrapLine TextScreen.wrapRow
  by_cases hfull : framebuffer.columns ≤ s.column
  · rw [if_pos (hwide.mpr hfull), if_pos hfull]
    refine h.withCursor rfl ?_ (Prod.Lex.toLex_le_toLex.mpr (Or.inl (Nat.lt_succ_self _)))
    rw [Terminal.toNat_succ, h.row_eq, Nat.mod_eq_of_lt (hrow hfull)]
  · rw [if_neg (mt hwide.mp hfull), if_neg hfull]
    exact h

/-- **The test that clears the screen.** -/
theorem Shows.wrapScreen (h : Shows framebuffer format d s)
    (hscreen : TerminalScreen framebuffer format) :
    Shows framebuffer format ⟨d.terminal.wrapScreen.1,
      paint (d.terminal.wrapScreen.2.flatMap (FramebufferCall.writes framebuffer format)) d.mem⟩
      (s.wrapPage framebuffer.rows) := by
  have hhigh : d.terminal.framebuffer.height.toNat
      < (d.terminal.cursorY.toNat + 1) * d.terminal.charH.toNat ↔ framebuffer.rows ≤ s.row := by
    rw [h.framebuffer_eq, h.charH_eq, h.row_eq]
    show _ < (s.row + 1) * 22 ↔ _
    unfold LimineFramebuffer.rows
    omega
  unfold Terminal.wrapScreen TextScreen.wrapPage
  by_cases hfull : framebuffer.rows ≤ s.row
  · rw [if_pos (hhigh.mpr hfull), if_pos hfull]
    refine ⟨⟨h.framebuffer_eq, h.charW_eq, h.charH_eq⟩, h.color_eq, rfl, rfl, s.blank_clear, ?_⟩
    intro x hx y hy
    rw [List.flatMap_singleton, TextScreen.image_clear]
    exact paint_clear hscreen hx hy
  · rw [if_neg (mt hhigh.mp hfull), if_neg hfull]
    exact h

/-- **One character**: the display shows the text with it. -/
theorem Shows.putChar (h : Shows framebuffer format d s)
    (hscreen : TerminalScreen framebuffer format) (hroom : FootRoom framebuffer format)
    (hon : d.terminal.OnScreen) (c : BitVec 8) :
    Shows framebuffer format (d.step format (.putChar c))
      (s.put framebuffer.columns framebuffer.rows c) := by
  have hwidth : d.terminal.framebuffer.width.toNat < 253 * d.terminal.charW.toNat := by
    rw [h.framebuffer_eq, h.charW_eq]
    exact hscreen.width_lt
  have hheight : d.terminal.framebuffer.height.toNat < 256 * d.terminal.charH.toNat := by
    rw [h.framebuffer_eq, h.charH_eq]
    exact hscreen.height_lt
  have hfits := hon.cursorFits hwidth hheight c
  show Shows framebuffer format ⟨(terminalPutChar d.terminal c).1, paint ((terminalPutChar
    d.terminal c).2.flatMap (FramebufferCall.writes d.terminal.framebuffer format)) d.mem⟩ _
  unfold TextScreen.put terminalPutChar
  rcases h.move hscreen hroom hon hfits with ⟨hmove, hs⟩ | ⟨t, calls, s', hmove, hs, hmoved⟩
  · rw [hmove, hs]
    exact h
  · have hdone := (hmoved.wrapLine (hmoved.row_lt hfits h hmove)).wrapScreen hscreen
    rw [hmove, hs, h.framebuffer_eq]
    dsimp only [Option.map_some, Option.getD_some]
    rw [List.flatMap_append, paint_append]
    exact hdone

/-- **The step**: a call of the terminal. -/
theorem Shows.step (h : Shows framebuffer format d s)
    (hscreen : TerminalScreen framebuffer format) (hroom : FootRoom framebuffer format)
    (hon : d.terminal.OnScreen) (call : TerminalCall) :
    Shows framebuffer format (d.step format call)
      (s.step framebuffer.columns framebuffer.rows call) := by
  cases call with
  | putChar c => exact h.putChar hscreen hroom hon c
  | setColor color =>
    exact ⟨⟨h.framebuffer_eq, h.charW_eq, h.charH_eq⟩, rfl, h.column_eq, h.row_eq, h.blank,
      h.pixel_eq⟩

/-- **The run**: any calls one after the other. -/
theorem Shows.run (h : Shows framebuffer format d s)
    (hscreen : TerminalScreen framebuffer format) (hroom : FootRoom framebuffer format)
    (hon : d.terminal.OnScreen) (calls : List TerminalCall) :
    Shows framebuffer format (d.run format calls)
      (s.run framebuffer.columns framebuffer.rows calls) := by
  induction calls generalizing d s with
  | nil => exact h
  | cons call calls ih =>
    exact ih (h.step hscreen hroom hon call) (h.toSetUp.step hscreen hon call).2

end Refinement

/-! ## Every text -/

/-- A screen without a text. -/
def TextScreen.init (background : ℕ → ℕ → BitVec 32) : TextScreen :=
  ⟨0, 0, 0xFFFFFF#32, fun _ _ => none, background⟩

section Text

variable {framebuffer : LimineFramebuffer} {format : FramebufferFormat}

theorem TextScreen.image_init (background : ℕ → ℕ → BitVec 32) (x y : ℕ) :
    (TextScreen.init background).image x y = background x y := by
  have hleft : (TextScreen.init background).left (y / 22) (x / 13) = none := by
    cases x / 13 <;> rfl
  unfold TextScreen.image
  rw [hleft]
  rfl

/-- At the start the display shows what is in the memory. -/
theorem shows_init (hscreen : TerminalScreen framebuffer format) (mem : PixelMemory) :
    (Display.init framebuffer mem).terminal.OnScreen ∧
      Shows framebuffer format (Display.init framebuffer mem)
        (.init fun x y => mem (format.indexOf x y)) := by
  refine ⟨⟨?_, ?_⟩, ⟨⟨rfl, rfl, rfl⟩, rfl, rfl, rfl, fun _ _ _ => rfl, fun x _ y _ => ?_⟩⟩
  · exact hscreen.width_ge
  · show 22 ≤ framebuffer.height.toNat
    exact le_trans (by decide) hscreen.height_ge
  · rw [TextScreen.image_init]
    rfl

/-- A text of spaces. -/
theorem TextScreen.run_spaces {columns rows k : ℕ} {s : TextScreen} (hrow : s.row < rows)
    (hk : s.column + k < columns) :
    s.run columns rows ((List.replicate k 0x20#8).map .putChar)
      = { s with column := s.column + k } := by
  induction k generalizing s with
  | zero => rfl
  | succ k ih =>
    have hput : s.put columns rows 0x20#8 = { s with column := s.column + 1 } := by
      show wrapPage rows (wrapRow columns { s with column := s.column + 1 }) = _
      unfold wrapRow
      rw [if_neg (by dsimp only; omega)]
      exact if_neg (by dsimp only; omega)
    show (s.put columns rows 0x20#8).run columns rows _ = _
    rw [hput]
    refine (ih (s := { s with column := s.column + 1 }) hrow (by dsimp only; omega)).trans ?_
    dsimp only
    rw [Nat.add_assoc, Nat.add_comm 1 k]

/-- The letter R in the last column of the first row leaves no ink in the first pixel of a row
of the screen. -/
theorem TextScreen.image_R {columns rows k : ℕ} (hcolumns : columns = k + 1) (hrows : 2 ≤ rows) :
    ((TextScreen.init fun _ _ => 0#32).run columns rows
      ((List.replicate k 0x20#8 ++ [0x52#8]).map .putChar)).image 0 15 = 0#32 := by
  let s : TextScreen := { TextScreen.init fun _ _ => 0#32 with column := 0 + k }
  have hput : s.put columns rows 0x52#8
      = { s.write (0x52#8, s.color) with row := 1, column := 0 } := by
    show wrapPage rows (wrapRow columns
      { s.write (0x52#8, s.color) with column := s.column + 1 }) = _
    unfold wrapRow
    rw [if_pos (by show columns ≤ 0 + k + 1; omega)]
    exact if_neg (by show ¬ rows ≤ 0 + 1; omega)
  have hspaces : (TextScreen.init fun _ _ => 0#32).run columns rows
      ((List.replicate k 0x20#8).map .putChar) = s :=
    TextScreen.run_spaces (by show 0 < rows; omega) (by show 0 + k < columns; omega)
  have hnone : s.inkAtCursor (0x52#8, s.color) 0 15 = none := by
    unfold inkAtCursor
    split
    · next hmem =>
      rw [Nat.zero_sub]
      exact if_neg (show ¬ charsetPixel 0x52#8 (0 / 2) (15 / 2) = true by decide +kernel)
    · rfl
  calc ((TextScreen.init fun _ _ => 0#32).run columns rows
        ((List.replicate k 0x20#8 ++ [0x52#8]).map .putChar)).image 0 15
      = (s.put columns rows 0x52#8).image 0 15 := by
        rw [List.map_append, TextScreen.run, List.foldl_append]
        exact congrArg (fun t => (t.put columns rows 0x52#8).image 0 15) hspaces
    _ = (s.write (0x52#8, s.color)).image 0 15 := by
        rw [hput]
        rfl
    _ = s.image 0 15 := by
        rw [image_write (fun _ _ _ => rfl), hnone]
        rfl
    _ = 0#32 := rfl

/-- What the terminal does with an R in the last column of the first row. -/
theorem terminalPutChar_lastR {x : BitVec 8} (hx : x.toNat + 1 < 256)
    (hw : framebuffer.width.toNat < (x.toNat + 2) * 13) (hh : 44 ≤ framebuffer.height.toNat) :
    (terminalPutChar (terminalAt framebuffer x 0#8) 0x52#8).2
      = [.drawChar 0x52#8 (x.setWidth 16 * 13#16) 0#16 0xFFFFFF#32] := by
  have hmove : (terminalAt framebuffer x 0#8).moveCursor 0x52#8
      = some (terminalAt framebuffer (x + 1#8) 0#8,
        [.drawChar 0x52#8 (x.setWidth 16 * 13#16) 0#16 0xFFFFFF#32]) := rfl
  have hline : (terminalAt framebuffer (x + 1#8) 0#8).wrapLine
      = terminalAt framebuffer 0#8 1#8 := by
    refine if_pos ?_
    show framebuffer.width.toNat < ((x + 1#8).toNat + 1) * 13
    rw [Terminal.toNat_succ, Nat.mod_eq_of_lt hx]
    exact hw
  have hscreen : (terminalAt framebuffer 0#8 1#8).wrapScreen
      = (terminalAt framebuffer 0#8 1#8, []) :=
    if_neg (Nat.not_lt_of_le hh)
  unfold terminalPutChar
  rw [hmove]
  dsimp only
  rw [hline, hscreen]
  rfl

/-- **Without room for its foot, an R in the last column** puts a pixel in the first column
of the screen. -/
theorem not_shows_of_no_room (hscreen : TerminalScreen framebuffer format)
    (hroom : ¬ FootRoom framebuffer format) :
    ∃ calls x y, x < framebuffer.width.toNat ∧ y < framebuffer.height.toNat ∧
      ((Display.init framebuffer fun _ => 0#32).run format calls).mem (format.indexOf x y)
        ≠ ((TextScreen.init fun _ _ => 0#32).run framebuffer.columns framebuffer.rows
            calls).image x y := by
  have hwidth := hscreen.width_ge
  have hheight := hscreen.height_ge
  have hlt := hscreen.width_lt
  have hstride := hscreen.le_stride
  unfold FootRoom at hroom
  obtain ⟨k, hk⟩ : ∃ k, framebuffer.columns = k + 1 :=
    Nat.exists_eq_add_one.mpr (by unfold LimineFramebuffer.columns; omega)
  have hrows : 2 ≤ framebuffer.rows := by
    unfold LimineFramebuffer.rows
    omega
  have hfull : format.stride = 13 * (k + 1) ∧ framebuffer.width.toNat = 13 * (k + 1) := by
    have hcolumns : 13 * framebuffer.columns ≤ framebuffer.width.toNat := Nat.mul_div_le _ _
    rw [hk] at hroom hcolumns
    omega
  refine ⟨(List.replicate k 0x20#8 ++ [0x52#8]).map .putChar, 0, 15, by omega, by omega, ?_⟩
  have htext : ((TextScreen.init fun _ _ => 0#32).run framebuffer.columns framebuffer.rows
      ((List.replicate k 0x20#8 ++ [0x52#8]).map .putChar)).image 0 15 = 0#32 :=
    TextScreen.image_R hk hrows
  have hpixel : ((Display.init framebuffer fun _ => 0#32).run format
      ((List.replicate k 0x20#8 ++ [0x52#8]).map .putChar)).mem (format.indexOf 0 15)
        = 0xFFFFFF#32 := by
    have hx : (0#8 + BitVec.ofNat 8 k).toNat = k := by
      rw [BitVec.zero_add, BitVec.toNat_ofNat, Nat.mod_eq_of_lt (by omega)]
    have hspaces : terminalWriteString (terminalInit framebuffer 13#8 22#8)
        (List.replicate k 0x20#8) = (terminalAt framebuffer (0#8 + BitVec.ofNat 8 k) 0#8, []) :=
      terminalWriteString_spaces (x := 0#8) (y := 0#8)
        (by rw [BitVec.toNat_zero]; omega) (by rw [BitVec.toNat_zero]; omega)
        (by rw [BitVec.toNat_zero]; omega)
    have hstart : ((0#8 + BitVec.ofNat 8 k).setWidth 16 * 13#16).toNat = 13 * k := by
      rw [show (13#16 : BitVec 16) = (13#8).setWidth 16 from rfl, Terminal.toNat_setWidth_mul, hx]
      exact Nat.mul_comm _ _
    obtain ⟨p, hp, hpx, hpy⟩ : ∃ p ∈ framebufferDrawChar format 0x52#8
        ((0#8 + BitVec.ofNat 8 k).setWidth 16 * 13#16) 0#16 0xFFFFFF#32,
        p.x = 13 * k + 13 ∧ p.y = 14 :=
      ⟨_, mem_framebufferDrawChar.mpr ⟨14, by decide, 13, by decide, charsetPixel_R, rfl⟩,
        by rw [hstart], rfl⟩
    have hindex : p.index = format.indexOf 0 15 := by
      rw [index_drawChar hscreen.holds.bpp_eq hp, hpx, hpy]
      unfold FramebufferFormat.indexOf
      rw [hfull.1]
      congr 1
      omega
    rw [run_putChar]
    show paint ((terminalWriteString (terminalInit framebuffer 13#8 22#8) _).2.flatMap
      (FramebufferCall.writes framebuffer format)) _ _ = _
    rw [terminalWriteString_append, hspaces, terminalWriteString, terminalWriteString]
    dsimp only
    rw [terminalPutChar_lastR (by omega) (by omega) hheight, List.nil_append, List.append_nil,
      List.flatMap_singleton]
    exact paint_of_mem (fun q => color_drawChar) ⟨p, hp, hindex⟩
  rw [htext, hpixel]
  decide

end Text

/-- **On which screens the terminal shows its text.** Whatever calls are made of the
terminal, nothing behind the framebuffer is written, and the pixels of the screen are those
of the text, exactly if there is room for the foot of an R behind the last column. -/
theorem display_shows_iff (framebuffer : LimineFramebuffer) (format : FramebufferFormat)
    (hscreen : TerminalScreen framebuffer format) :
    (∀ mem calls i, framebuffer.height.toNat * format.stride ≤ BitVec.toNat i →
      ((Display.init framebuffer mem).run format calls).mem i = mem i) ∧
    ((∀ mem calls x y, x < framebuffer.width.toNat → y < framebuffer.height.toNat →
      ((Display.init framebuffer mem).run format calls).mem (format.indexOf x y)
        = ((TextScreen.init fun x y => mem (format.indexOf x y)).run framebuffer.columns
            framebuffer.rows calls).image x y) ↔
      FootRoom framebuffer format) := by
  refine ⟨fun mem calls i hi => ?_, fun hall => ?_, fun hroom mem calls x y hx hy => ?_⟩
  · obtain ⟨hon, hinit⟩ := shows_init hscreen mem
    exact hinit.run_outside hscreen hon calls hi
  · by_contra hroom
    obtain ⟨calls, x, y, hx, hy, hne⟩ := not_shows_of_no_room hscreen hroom
    exact hne (hall (fun _ => 0#32) calls x y hx hy)
  · obtain ⟨hon, hinit⟩ := shows_init hscreen mem
    exact (hinit.run hscreen hroom hon calls).pixel_eq x hx y hy

/-- A screen of 1920 by 1080 pixels: the top of a letter A, in red. -/
theorem display_shows_fullHd : ((Display.init ⟨1920#64, 1080#64⟩ fun _ => 0#32).run
    ⟨7680#64, 32#16⟩ [.setColor 0xAA0000#32, .putChar 0x41#8]).mem
      (FramebufferFormat.indexOf ⟨7680#64, 32#16⟩ 6 2) = 0xAA0000#32 := by
  refine ((display_shows_iff ⟨1920#64, 1080#64⟩ ⟨7680#64, 32#16⟩
    ⟨⟨rfl, by decide, by decide⟩, by decide, by decide, by decide, by decide⟩).2.mpr (by decide)
    (fun _ => 0#32) [.setColor 0xAA0000#32, .putChar 0x41#8] 6 2 (by decide) (by decide)).trans ?_
  decide +kernel
