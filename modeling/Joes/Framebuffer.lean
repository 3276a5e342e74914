import Joes.Charset
import Joes.Terminal

/-!
# The pixels of a text

`framebuffer_draw_char` doubles a bitmap of the charset, so it draws over 20 by 20 pixels, and
the cells of the terminal are 13 by 22. The two fit each other because the bitmaps are narrower
than they could be: six columns of each have ink in them, which makes twelve pixels, and only
the letter R has a dot in the seventh column, which makes two more
(`framebufferDrawChar_inCell`). The first of these is the last pixel of the cell, and the
second one is behind it (`framebufferDrawChar_R`).

A character is drawn at the cursor, which is in a cell of the screen whatever was written
before (`Terminal.OnScreen`). So nothing is drawn beside the screen but the second of the two
pixels, and that only if the cell of the R ends where the screen does, that is in the last
column of a screen that the cells fill (`terminalPutChar_onScreen_iff`). For a text this is
asked of the cursor at each of its letters (`RunGlyphsFit`). For all texts it comes down to the
width: the last column is reached by writing blanks, one for each column before it, if there
are not more columns than the 8 bits of the cursor can count (`exists_pixel_off_screen`), and
on a width that is no multiple of 13 there are pixels behind the last cell to take it
(`drawnPixels_onScreen_iff`).
-/

/-- What `framebuffer_draw_char` reads of a `struct limine_framebuffer`. -/
structure FramebufferFormat where
  /-- The bytes from one row to the next. -/
  pitch : BitVec 64
  /-- The bits of a pixel. -/
  bpp : BitVec 16
  deriving DecidableEq

/-- A pixel that is written: where it is, and at which index of the buffer. -/
structure PixelWrite where
  x : ℕ
  y : ℕ
  index : BitVec 64
  color : BitVec 32
  deriving DecidableEq

/-- `framebuffer_draw_char`, with the pixels that it writes. -/
def framebufferDrawChar (format : FramebufferFormat) (c : BitVec 8) (startX startY : BitVec 16)
    (color : BitVec 32) : List PixelWrite :=
  (List.range (characterHeight * 2)).flatMap fun y =>
    (List.range (characterWidth * 2)).filterMap fun x =>
      if charsetPixel c (x / 2) (y / 2) then
        some {
          x := startX.toNat + x
          y := startY.toNat + y
          index := (startY.setWidth 64 + BitVec.ofNat 64 y)
              * (format.pitch / (format.bpp / 8#16).setWidth 64)
            + startX.setWidth 64 + BitVec.ofNat 64 x
          color := color }
      else none

/-- The pixels that `framebuffer_draw_char` writes in a call of the framebuffer. -/
def FramebufferCall.pixels (format : FramebufferFormat) : FramebufferCall → List PixelWrite
  | .drawChar c startX startY color => framebufferDrawChar format c startX startY color
  | .clear _ => []

/-- The pixels of the glyphs of a text, in a terminal with the kernel's cells. -/
def drawnPixels (framebuffer : LimineFramebuffer) (format : FramebufferFormat)
    (str : List (BitVec 8)) : List PixelWrite :=
  (terminalWriteString (terminalInit framebuffer 13#8 22#8) str).2.flatMap
    (FramebufferCall.pixels format)

/-- **A pixel on the screen.** -/
def PixelWrite.OnScreen (framebuffer : LimineFramebuffer) (p : PixelWrite) : Prop :=
  p.x < framebuffer.width.toNat ∧ p.y < framebuffer.height.toNat

/-! ## Glyphs -/

section Glyph

variable {framebuffer : LimineFramebuffer} {format : FramebufferFormat} {c : BitVec 8}
  {startX startY : BitVec 16} {color : BitVec 32} {p : PixelWrite}

theorem mem_framebufferDrawChar : p ∈ framebufferDrawChar format c startX startY color ↔
    ∃ y < characterHeight * 2, ∃ x < characterWidth * 2, charsetPixel c (x / 2) (y / 2) = true ∧
      p = ⟨startX.toNat + x, startY.toNat + y, (startY.setWidth 64 + BitVec.ofNat 64 y)
          * (format.pitch / (format.bpp / 8#16).setWidth 64)
        + startX.setWidth 64 + BitVec.ofNat 64 x, color⟩ := by
  simp only [framebufferDrawChar, List.mem_flatMap, List.mem_range, List.mem_filterMap,
    Option.ite_none_right_eq_some, Option.some.injEq, eq_comm (a := p)]

/-- **Where the pixels of a glyph are**: in its cell, but for one of the letter R. -/
theorem framebufferDrawChar_inCell (h : p ∈ framebufferDrawChar format c startX startY color) :
    (p.x < startX.toNat + 13 ∨ c = 0x52#8 ∧ p.x < startX.toNat + 14)
      ∧ p.y < startY.toNat + 22 := by
  obtain ⟨y, hy, x, -, hpixel, rfl⟩ := mem_framebufferDrawChar.mp h
  unfold characterHeight at hy
  refine ⟨?_, by dsimp only; omega⟩
  rcases charset_columns hpixel with hx | ⟨hc, hx⟩
  · left
    dsimp only
    omega
  · right
    refine ⟨hc, ?_⟩
    dsimp only
    omega

variable (format startX startY color) in
/-- That pixel. -/
theorem framebufferDrawChar_R : ∃ p ∈ framebufferDrawChar format 0x52#8 startX startY color,
    p.x = startX.toNat + 13 :=
  ⟨_, mem_framebufferDrawChar.mpr ⟨14, by decide, 13, by decide, charsetPixel_R, rfl⟩, rfl⟩

end Glyph

/-! ## Texts -/

/-- **A letter that fits the screen**: an R is not in a cell that ends where the screen
does. -/
def Terminal.GlyphFits (t : Terminal) (c : BitVec 8) : Prop :=
  c = 0x52#8 → (t.cursorX.toNat + 1) * 13 ≠ t.framebuffer.width.toNat

/-- A text whose letters fit the screen. -/
def RunGlyphsFit (t : Terminal) : List (BitVec 8) → Prop
  | [] => True
  | c :: str => t.GlyphFits c ∧ RunGlyphsFit (terminalPutChar t c).1 str

open Terminal

section Text

variable {framebuffer : LimineFramebuffer} {format : FramebufferFormat} {t : Terminal}
  {c : BitVec 8} {str : List (BitVec 8)}

/-- Wrapping draws no pixel. -/
theorem pixels_terminalPutChar (t : Terminal) (c : BitVec 8) :
    (terminalPutChar t c).2.flatMap (FramebufferCall.pixels format)
      = ((t.moveCursor c).elim [] Prod.snd).flatMap (FramebufferCall.pixels format) := by
  unfold terminalPutChar
  cases t.moveCursor c with
  | none => rfl
  | some r =>
    have hwrap : r.1.wrapLine.wrapScreen.2.flatMap (FramebufferCall.pixels format) = [] := by
      unfold wrapScreen
      split <;> rfl
    dsimp only [Option.elim]
    rw [List.flatMap_append, hwrap, List.append_nil]

/-- The letter R is drawn. -/
theorem moveCursor_R (t : Terminal) : (t.moveCursor 0x52#8).elim [] Prod.snd
    = [.drawChar 0x52#8 (t.cursorX.setWidth 16 * t.charW.setWidth 16)
      (t.cursorY.setWidth 16 * t.charH.setWidth 16) t.fgColor] := by
  unfold moveCursor
  rw [if_neg (by decide), if_neg (by decide), if_neg (by decide), if_neg (by decide)]
  rfl

/-- **One character**: its pixels are on the screen exactly if it fits. -/
theorem terminalPutChar_onScreen_iff (h : t.OnScreen) (hw : t.charW = 13#8) (hh : t.charH = 22#8) :
    (∀ p ∈ (terminalPutChar t c).2.flatMap (FramebufferCall.pixels format),
        p.OnScreen t.framebuffer) ↔ t.GlyphFits c := by
  have hx : (t.cursorX.setWidth 16 * t.charW.setWidth 16).toNat = t.cursorX.toNat * 13 := by
    rw [toNat_setWidth_mul, hw]
    rfl
  have hy : (t.cursorY.setWidth 16 * t.charH.setWidth 16).toNat = t.cursorY.toNat * 22 := by
    rw [toNat_setWidth_mul, hh]
    rfl
  have hcolumn : (t.cursorX.toNat + 1) * 13 ≤ t.framebuffer.width.toNat := by
    have hle := h.column_le
    rwa [hw] at hle
  have hrow : (t.cursorY.toNat + 1) * 22 ≤ t.framebuffer.height.toNat := by
    have hle := h.row_le
    rwa [hh] at hle
  rw [pixels_terminalPutChar]
  constructor
  · rintro hall rfl heq
    obtain ⟨p, hp, hpx⟩ := framebufferDrawChar_R format
      (t.cursorX.setWidth 16 * t.charW.setWidth 16) (t.cursorY.setWidth 16 * t.charH.setWidth 16)
      t.fgColor
    rw [moveCursor_R, List.flatMap_singleton] at hall
    have hlt := (hall p hp).1
    omega
  · intro hfits p hp
    cases hmove : t.moveCursor c with
    | none =>
      rw [hmove] at hp
      cases hp
    | some r =>
      rw [hmove] at hp
      dsimp only [Option.elim] at hp
      rcases (moveCursor_some hmove).calls_eq with hcalls | hcalls
      · rw [hcalls] at hp
        cases hp
      · rw [hcalls, List.flatMap_singleton] at hp
        obtain ⟨hpx, hpy⟩ := framebufferDrawChar_inCell hp
        refine ⟨?_, by omega⟩
        rcases hpx with hpx | ⟨hR, hpx⟩
        · omega
        · have hne := hfits hR
          omega

/-- **A text's pixels are on the screen** exactly if its letters fit. -/
theorem terminalWriteString_onScreen_iff (h : t.OnScreen) (hcell : t.HasCell)
    (hw : t.charW = 13#8) (hh : t.charH = 22#8) (str : List (BitVec 8)) :
    (∀ p ∈ (terminalWriteString t str).2.flatMap (FramebufferCall.pixels format),
        p.OnScreen t.framebuffer) ↔ RunGlyphsFit t str := by
  induction str generalizing t with
  | nil => exact iff_of_true (List.forall_mem_nil _) trivial
  | cons c str ih =>
    obtain ⟨hcharW, hcharH, hfb⟩ := terminalPutChar_frame t c
    have hcell' : (terminalPutChar t c).1.HasCell := by
      constructor
      · rw [hcharW, hfb]
        exact hcell.width_le
      · rw [hcharH, hfb]
        exact hcell.height_le
    have hrest := ih (h.putChar hcell c) hcell' (hcharW.trans hw) (hcharH.trans hh)
    rw [hfb] at hrest
    rw [terminalWriteString]
    dsimp only
    rw [List.flatMap_append, List.forall_mem_append, terminalPutChar_onScreen_iff h hw hh, hrest]
    rfl

/-- On a screen that the cells do not fill, every letter fits. -/
theorem runGlyphsFit_of_not_dvd (hfill : ¬ (13 ∣ t.framebuffer.width.toNat
    ∧ t.framebuffer.width.toNat ≤ 256 * 13)) (str : List (BitVec 8)) : RunGlyphsFit t str := by
  induction str generalizing t with
  | nil => trivial
  | cons c str ih =>
    obtain ⟨-, -, hfb⟩ := terminalPutChar_frame t c
    refine ⟨fun _ heq => hfill ⟨Dvd.intro_left _ heq, ?_⟩, ih (by rwa [hfb])⟩
    have hlt := t.cursorX.isLt
    omega

/-- **The letter R in the last cell of a row** has a pixel behind the screen if the cells
fill it. -/
theorem exists_pixel_off_screen (framebuffer : LimineFramebuffer) (format : FramebufferFormat)
    {k : ℕ} (hk : k < 256) (hw : framebuffer.width.toNat = (k + 1) * 13)
    (hh : 22 ≤ framebuffer.height.toNat) :
    ∃ p ∈ drawnPixels framebuffer format (List.replicate k 0x20#8 ++ [0x52#8]),
      ¬ p.OnScreen framebuffer := by
  have hspaces : terminalWriteString (terminalInit framebuffer 13#8 22#8)
      (List.replicate k 0x20#8) = (terminalAt framebuffer (0#8 + BitVec.ofNat 8 k) 0#8, []) :=
    terminalWriteString_spaces (x := 0#8) (y := 0#8) (by simpa using hk)
      (by rw [BitVec.toNat_zero, Nat.zero_add, hw]) hh
  have hx : ((terminalAt framebuffer (0#8 + BitVec.ofNat 8 k) 0#8).cursorX.setWidth 16
      * (terminalAt framebuffer (0#8 + BitVec.ofNat 8 k) 0#8).charW.setWidth 16).toNat
        = k * 13 := by
    rw [toNat_setWidth_mul]
    show (0#8 + BitVec.ofNat 8 k).toNat * 13 = k * 13
    rw [BitVec.zero_add, BitVec.toNat_ofNat, Nat.mod_eq_of_lt hk]
  obtain ⟨p, hp, hpx⟩ := framebufferDrawChar_R format _ ((terminalAt framebuffer
    (0#8 + BitVec.ofNat 8 k) 0#8).cursorY.setWidth 16 * (22#8).setWidth 16) 0xFFFFFF#32
  refine ⟨p, ?_, fun hon => ?_⟩
  · unfold drawnPixels
    rw [terminalWriteString_append, hspaces]
    dsimp only
    rw [List.nil_append, terminalWriteString, terminalWriteString]
    dsimp only
    rw [List.append_nil, pixels_terminalPutChar, moveCursor_R, List.flatMap_singleton]
    exact hp
  · have hlt := hon.1
    rw [hpx, hx, hw] at hlt
    omega

end Text

/-- **On which screens no glyph is cut off.** The pixels of a text are on the screen
exactly if none of its letters R is in a cell that ends where the screen does. All texts
are on it exactly if the cells do not fill the width, or do so with more columns than the
cursor reaches. -/
theorem drawnPixels_onScreen_iff (framebuffer : LimineFramebuffer) (format : FramebufferFormat)
    (hw : 13 ≤ framebuffer.width.toNat) (hh : 22 ≤ framebuffer.height.toNat) :
    (∀ str, (∀ p ∈ drawnPixels framebuffer format str, p.OnScreen framebuffer)
        ↔ RunGlyphsFit (terminalInit framebuffer 13#8 22#8) str)
      ∧ ((∀ str, ∀ p ∈ drawnPixels framebuffer format str, p.OnScreen framebuffer)
        ↔ ¬ (13 ∣ framebuffer.width.toNat ∧ framebuffer.width.toNat ≤ 256 * 13)) := by
  have hcell : (terminalInit framebuffer 13#8 22#8).HasCell := ⟨hw, hh⟩
  have htext : ∀ str, (∀ p ∈ drawnPixels framebuffer format str, p.OnScreen framebuffer)
      ↔ RunGlyphsFit (terminalInit framebuffer 13#8 22#8) str := fun str =>
    terminalWriteString_onScreen_iff (hcell.onScreen rfl rfl) hcell rfl rfl str
  refine ⟨htext, fun hall => ?_, fun hfill str => (htext str).mpr (runGlyphsFit_of_not_dvd hfill _)⟩
  rintro ⟨⟨k, hk⟩, hle⟩
  obtain ⟨p, hp, hoff⟩ := exists_pixel_off_screen framebuffer format (k := k - 1) (by omega)
    (by omega) hh
  exact hoff (hall _ p hp)

/-- A screen of 1920 by 1080 pixels, which the cells do not fill. -/
theorem drawnPixels_onScreen_fullHd : ¬ (13 ∣ 1920 ∧ 1920 ≤ 256 * 13)
    ∧ ∀ p ∈ drawnPixels ⟨1920#64, 1080#64⟩ ⟨7680#64, 32#16⟩ (List.replicate 146 0x20#8 ++ [0x52#8]),
      p.OnScreen ⟨1920#64, 1080#64⟩ :=
  ⟨by decide, (drawnPixels_onScreen_iff ⟨1920#64, 1080#64⟩ ⟨7680#64, 32#16⟩ (by decide)
    (by decide)).2.mpr (by decide) _⟩

/-- **A screen of 832 by 624 pixels**: the foot of an R in the last column is in the next
row. -/
theorem drawnPixels_not_onScreen : ¬ ∀ p ∈ drawnPixels ⟨832#64, 624#64⟩ ⟨3328#64, 32#16⟩
    (List.replicate 63 0x20#8 ++ [0x52#8]), p.OnScreen ⟨832#64, 624#64⟩ := by
  obtain ⟨p, hp, hoff⟩ := exists_pixel_off_screen ⟨832#64, 624#64⟩ ⟨3328#64, 32#16⟩ (k := 63)
    (by decide) rfl (by decide)
  exact fun hall => hoff (hall p hp)
