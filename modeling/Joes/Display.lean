import Joes.Framebuffer

/-!
# The display

The framebuffer is memory: `framebuffer_draw_char` stores the pixels of a glyph that are
set and does not touch the others, `framebuffer_clear` stores all pixels. The display is
the terminal with this memory, and a run is a sequence of calls of the terminal.

A pixel is at the index of its place, that is its row times the length of a row, and its
column (`indexOf`). With 32 bits for a pixel both functions compute this index, modulo
`2 ^ 64` (`index_drawChar`, `index_clear`). In a buffer that fits the address space the
modulus does not matter, and places with a column of the row have different indices
(`indexOf_inj`), so a pixel keeps its color until something is stored at its own place.

No call writes a pixel behind the last row (`SetUp.run_outside`). This rests on the
cursor, which is in a cell of the screen before every call (`SetUp.step`). A glyph is
drawn over 20 rows and a cell has 22, so the glyph does not reach the last row of the
buffer. It may go beyond the right edge by a pixel, but behind a row that is not the
last one there is another row, and what is stored there is still in the buffer
(`SetUp.index_lt`).
-/

/-- The memory that the pointer to the framebuffer points to, by the index of a pixel. -/
abbrev PixelMemory := BitVec 64 → BitVec 32

/-- `framebuffer_clear`, with the pixels that it writes. -/
def framebufferClear (framebuffer : LimineFramebuffer) (format : FramebufferFormat)
    (color : BitVec 32) : List PixelWrite :=
  (List.range framebuffer.height.toNat).flatMap fun y =>
    (List.range framebuffer.width.toNat).map fun x =>
      { x := x
        y := y
        index := BitVec.ofNat 64 y * (format.pitch / (format.bpp / 8#16).setWidth 64)
          + BitVec.ofNat 64 x
        color := color }

/-- The pixels that a call of the framebuffer writes. -/
def FramebufferCall.writes (framebuffer : LimineFramebuffer) (format : FramebufferFormat) :
    FramebufferCall → List PixelWrite
  | .drawChar c startX startY color => framebufferDrawChar format c startX startY color
  | .clear color => framebufferClear framebuffer format color

/-- Writing pixels to the memory. -/
def paint (ps : List PixelWrite) (mem : PixelMemory) : PixelMemory :=
  ps.foldl (fun mem p => Function.update mem p.index p.color) mem

/-- A call of the terminal. -/
inductive TerminalCall where
  /-- `terminal_put_char(c)` -/
  | putChar (c : BitVec 8)
  /-- `terminal_set_color(color)` -/
  | setColor (color : BitVec 32)
  deriving DecidableEq

/-- The terminal and the memory of its framebuffer. -/
structure Display where
  terminal : Terminal
  mem : PixelMemory

namespace Display

/-- A call. -/
def step (format : FramebufferFormat) (d : Display) : TerminalCall → Display
  | .putChar c =>
    let r := terminalPutChar d.terminal c
    ⟨r.1, paint (r.2.flatMap (FramebufferCall.writes d.terminal.framebuffer format)) d.mem⟩
  | .setColor color => ⟨terminalSetColor d.terminal color, d.mem⟩

/-- Calls one after the other. -/
def run (format : FramebufferFormat) (d : Display) (calls : List TerminalCall) : Display :=
  calls.foldl (step format) d

end Display

/-- The display after `terminal_init`, with the kernel's cells. -/
def Display.init (framebuffer : LimineFramebuffer) (mem : PixelMemory) : Display :=
  ⟨terminalInit framebuffer 13#8 22#8, mem⟩

/-! ## Pixels in the memory -/

/-- The pixels from one row to the next. -/
def FramebufferFormat.stride (format : FramebufferFormat) : ℕ := format.pitch.toNat / 4

/-- **The framebuffer is one of 32-bit pixels**: a row holds the pixels of the screen, and
the rows fit the address space. -/
structure FramebufferFormat.Holds (format : FramebufferFormat) (framebuffer : LimineFramebuffer) :
    Prop where
  bpp_eq : format.bpp = 32#16
  width_le : 4 * framebuffer.width.toNat ≤ format.pitch.toNat
  size_le : framebuffer.height.toNat * format.pitch.toNat ≤ 2 ^ 64

section Pixels

variable {framebuffer : LimineFramebuffer} {format : FramebufferFormat} {c : BitVec 8}
  {startX startY : BitVec 16} {color : BitVec 32} {p : PixelWrite} {ps : List PixelWrite}
  {mem : PixelMemory}

/-- The index of a pixel. -/
def FramebufferFormat.indexOf (format : FramebufferFormat) (x y : ℕ) : BitVec 64 :=
  BitVec.ofNat 64 (y * format.stride + x)

theorem stride_eq (hbpp : format.bpp = 32#16) :
    format.pitch / (format.bpp / 8#16).setWidth 64 = BitVec.ofNat 64 format.stride := by
  have hstride : format.stride < 2 ^ 64 := lt_of_le_of_lt (Nat.div_le_self _ _) format.pitch.isLt
  rw [hbpp, ← BitVec.toNat_inj, BitVec.toNat_udiv, BitVec.toNat_ofNat, Nat.mod_eq_of_lt hstride]
  rfl

theorem index_drawChar (hbpp : format.bpp = 32#16)
    (h : p ∈ framebufferDrawChar format c startX startY color) :
    p.index = format.indexOf p.x p.y := by
  obtain ⟨y, -, x, -, -, rfl⟩ := mem_framebufferDrawChar.mp h
  dsimp only
  unfold FramebufferFormat.indexOf
  rw [stride_eq hbpp, ← BitVec.ofNat_toNat, ← BitVec.ofNat_toNat, ← BitVec.ofNat_add,
    ← BitVec.ofNat_mul, ← BitVec.ofNat_add, ← BitVec.ofNat_add, Nat.add_assoc]

theorem mem_framebufferClear : p ∈ framebufferClear framebuffer format color ↔
    ∃ y < framebuffer.height.toNat, ∃ x < framebuffer.width.toNat,
      p = ⟨x, y, BitVec.ofNat 64 y * (format.pitch / (format.bpp / 8#16).setWidth 64)
        + BitVec.ofNat 64 x, color⟩ := by
  simp only [framebufferClear, List.mem_flatMap, List.mem_range, List.mem_map, eq_comm (a := p)]

theorem index_clear (hbpp : format.bpp = 32#16)
    (h : p ∈ framebufferClear framebuffer format color) : p.index = format.indexOf p.x p.y := by
  obtain ⟨y, -, x, -, rfl⟩ := mem_framebufferClear.mp h
  dsimp only
  unfold FramebufferFormat.indexOf
  rw [stride_eq hbpp, ← BitVec.ofNat_mul, ← BitVec.ofNat_add]

/-- **The memory outside the pixels that are written** is unchanged. -/
theorem paint_of_not_mem {i : BitVec 64} (h : ∀ p ∈ ps, p.index ≠ i) : paint ps mem i = mem i := by
  induction ps generalizing mem with
  | nil => rfl
  | cons p ps ih =>
    obtain ⟨hp, hps⟩ := List.forall_mem_cons.mp h
    show paint ps (Function.update mem p.index p.color) i = _
    rw [ih hps, Function.update_of_ne (Ne.symm hp)]

/-- **A pixel that is written**, in a colour that all pixels have. -/
theorem paint_of_mem {i : BitVec 64} (hcolor : ∀ p ∈ ps, p.color = color)
    (h : ∃ p ∈ ps, p.index = i) : paint ps mem i = color := by
  induction ps generalizing mem with
  | nil =>
    obtain ⟨p, hp, -⟩ := h
    cases hp
  | cons p ps ih =>
    obtain ⟨hp, hps⟩ := List.forall_mem_cons.mp hcolor
    show paint ps (Function.update mem p.index p.color) i = _
    by_cases hlater : ∃ q ∈ ps, q.index = i
    · exact ih hps hlater
    · have hlast : p.index = i := by
        obtain ⟨q, hq, rfl⟩ := h
        rcases List.mem_cons.mp hq with rfl | hq
        · rfl
        · exact absurd ⟨q, hq, rfl⟩ hlater
      rw [paint_of_not_mem fun q hq hqi => hlater ⟨q, hq, hqi⟩, hlast, Function.update_self, hp]

/-- Writing pixels in two parts. -/
theorem paint_append (ps qs : List PixelWrite) : paint (ps ++ qs) mem = paint qs (paint ps mem) :=
  List.foldl_append

/-- A glyph has one colour, -/
theorem color_drawChar (h : p ∈ framebufferDrawChar format c startX startY color) :
    p.color = color := by
  obtain ⟨y, -, x, -, -, rfl⟩ := mem_framebufferDrawChar.mp h
  rfl

/-- and so has a clear screen. -/
theorem color_clear (h : p ∈ framebufferClear framebuffer format color) : p.color = color := by
  obtain ⟨y, -, x, -, rfl⟩ := mem_framebufferClear.mp h
  rfl

/-- **Pixels are told apart by their indices**, in rows that are long enough. -/
theorem indexOf_inj (hfmt : format.Holds framebuffer) {x y x' y' : ℕ} (hx : x < format.stride)
    (hx' : x' < format.stride) (hy : y < framebuffer.height.toNat)
    (hy' : y' < framebuffer.height.toNat) (h : format.indexOf x y = format.indexOf x' y') :
    x = x' ∧ y = y' := by
  have hbound : ∀ u v, u < format.stride → v < framebuffer.height.toNat →
      v * format.stride + u < 2 ^ 64 := by
    intro u v hu hv
    have hmul : (v + 1) * format.stride ≤ framebuffer.height.toNat * format.stride :=
      Nat.mul_le_mul_right _ hv
    have hpitch : framebuffer.height.toNat * format.stride
        ≤ framebuffer.height.toNat * format.pitch.toNat :=
      Nat.mul_le_mul_left _ (Nat.div_le_self _ _)
    have hsize := hfmt.size_le
    rw [Nat.succ_mul] at hmul
    omega
  unfold FramebufferFormat.indexOf at h
  have hnat := congrArg BitVec.toNat h
  rw [BitVec.toNat_ofNat, BitVec.toNat_ofNat, Nat.mod_eq_of_lt (hbound x y hx hy),
    Nat.mod_eq_of_lt (hbound x' y' hx' hy')] at hnat
  have hrow : y = y' := by
    have hdiv := congrArg (· / format.stride) hnat
    simpa only [Nat.mul_add_div (Nat.zero_lt_of_lt hx), Nat.mul_comm _ format.stride,
      Nat.div_eq_of_lt hx, Nat.div_eq_of_lt hx', Nat.add_zero] using hdiv
  subst hrow
  exact ⟨Nat.add_left_cancel hnat, rfl⟩

end Pixels

/-! ## The terminal on its screen -/

/-- **The terminal is set up** for a framebuffer, with the kernel's cells. -/
structure SetUp (framebuffer : LimineFramebuffer) (t : Terminal) : Prop where
  framebuffer_eq : t.framebuffer = framebuffer
  charW_eq : t.charW = 13#8
  charH_eq : t.charH = 22#8

/-- **A screen that the terminal can use**: with room for a cell and another one below it,
and with at most 252 columns and 255 rows. -/
structure TerminalScreen (framebuffer : LimineFramebuffer) (format : FramebufferFormat) : Prop
    where
  holds : format.Holds framebuffer
  width_ge : 13 ≤ framebuffer.width.toNat
  width_lt : framebuffer.width.toNat < 253 * 13
  height_ge : 44 ≤ framebuffer.height.toNat
  height_lt : framebuffer.height.toNat < 256 * 22

/-! ## The memory behind the buffer -/

section Buffer

variable {framebuffer : LimineFramebuffer} {format : FramebufferFormat} {d : Display}
  {t : Terminal} {c : BitVec 8}

theorem TerminalScreen.le_stride (hscreen : TerminalScreen framebuffer format) :
    framebuffer.width.toNat ≤ format.stride := by
  have hwidth := hscreen.holds.width_le
  unfold FramebufferFormat.stride
  omega

/-- The calls that a character makes of the framebuffer. -/
theorem mem_terminalPutChar {call : FramebufferCall} (h : call ∈ (terminalPutChar t c).2) :
    call = .drawChar c (t.cursorX.setWidth 16 * t.charW.setWidth 16)
      (t.cursorY.setWidth 16 * t.charH.setWidth 16) t.fgColor ∨ call = .clear 0#32 := by
  unfold terminalPutChar at h
  cases hmove : t.moveCursor c with
  | none =>
    rw [hmove] at h
    cases h
  | some r =>
    rw [hmove] at h
    rcases List.mem_append.mp h with hdraw | hclear
    · rcases (Terminal.moveCursor_some hmove).calls_eq with hcalls | hcalls
      · rw [hcalls] at hdraw
        cases hdraw
      · rw [hcalls] at hdraw
        exact .inl (List.mem_singleton.mp hdraw)
    · unfold Terminal.wrapScreen at hclear
      split at hclear
      · exact .inr (List.mem_singleton.mp hclear)
      · cases hclear

/-- A pixel whose place is before the end of the last row is in the buffer. -/
theorem indexOf_lt {x y : ℕ}
    (h : y * format.stride + x < framebuffer.height.toNat * format.stride) :
    (format.indexOf x y).toNat < framebuffer.height.toNat * format.stride := by
  unfold FramebufferFormat.indexOf
  rw [BitVec.toNat_ofNat]
  exact lt_of_le_of_lt (Nat.mod_le _ _) h

/-- **The pixels of a character are in the buffer.** -/
theorem SetUp.index_lt (h : SetUp framebuffer t) (hscreen : TerminalScreen framebuffer format)
    (hon : t.OnScreen) {p : PixelWrite}
    (hp : p ∈ (terminalPutChar t c).2.flatMap (FramebufferCall.writes framebuffer format)) :
    p.index.toNat < framebuffer.height.toNat * format.stride := by
  have hstride := hscreen.le_stride
  have hwidth := hscreen.width_ge
  -- The last row that is written to ends before the last one of the buffer.
  have hrow : ∀ x y, x ≤ format.stride → y + 1 < framebuffer.height.toNat →
      y * format.stride + x < framebuffer.height.toNat * format.stride := by
    intro x y hx hy
    have hmul : (y + 2) * format.stride ≤ framebuffer.height.toNat * format.stride :=
      Nat.mul_le_mul_right _ hy
    rw [Nat.add_mul] at hmul
    omega
  obtain ⟨call, hcall, hp⟩ := List.mem_flatMap.mp hp
  rcases mem_terminalPutChar hcall with rfl | rfl
  · obtain ⟨hcolumn, hheight⟩ := hon
    rw [h.framebuffer_eq, h.charW_eq] at hcolumn
    rw [h.framebuffer_eq, h.charH_eq] at hheight
    change (t.cursorX.toNat + 1) * 13 ≤ _ at hcolumn
    change (t.cursorY.toNat + 1) * 22 ≤ _ at hheight
    rw [index_drawChar hscreen.holds.bpp_eq hp]
    obtain ⟨dy, hdy, dx, -, hpixel, rfl⟩ := mem_framebufferDrawChar.mp hp
    have hdx := charset_columns hpixel
    unfold characterHeight at hdy
    dsimp only
    rw [Terminal.toNat_setWidth_mul, Terminal.toNat_setWidth_mul, h.charW_eq, h.charH_eq]
    refine indexOf_lt (hrow _ _ ?_ ?_)
    · show t.cursorX.toNat * 13 + dx ≤ format.stride
      omega
    · show t.cursorY.toNat * 22 + dy + 1 < framebuffer.height.toNat
      omega
  · rw [index_clear hscreen.holds.bpp_eq hp]
    obtain ⟨y, hy, x, hx, rfl⟩ := mem_framebufferClear.mp hp
    refine indexOf_lt ?_
    have hmul : (y + 1) * format.stride ≤ framebuffer.height.toNat * format.stride :=
      Nat.mul_le_mul_right _ hy
    rw [Nat.succ_mul] at hmul
    dsimp only
    omega

/-- A call keeps the terminal as it was set up, with its cursor on the screen. -/
theorem SetUp.step (h : SetUp framebuffer d.terminal) (hscreen : TerminalScreen framebuffer format)
    (hon : d.terminal.OnScreen) (call : TerminalCall) :
    SetUp framebuffer (d.step format call).terminal ∧ (d.step format call).terminal.OnScreen := by
  cases call with
  | putChar c =>
    obtain ⟨hcharW, hcharH, hfb⟩ := terminalPutChar_frame d.terminal c
    refine ⟨⟨hfb.trans h.framebuffer_eq, hcharW.trans h.charW_eq, hcharH.trans h.charH_eq⟩,
      hon.putChar ⟨?_, ?_⟩ c⟩
    · rw [h.charW_eq, h.framebuffer_eq]
      exact hscreen.width_ge
    · rw [h.charH_eq, h.framebuffer_eq]
      exact le_trans (by decide) hscreen.height_ge
  | setColor color =>
    exact ⟨⟨h.framebuffer_eq, h.charW_eq, h.charH_eq⟩, ⟨hon.column_le, hon.row_le⟩⟩

/-- **`terminal_write_string`** is a call for each of the characters. -/
theorem run_putChar (format : FramebufferFormat) (d : Display) (str : List (BitVec 8)) :
    d.run format (str.map .putChar) = ⟨(terminalWriteString d.terminal str).1,
      paint ((terminalWriteString d.terminal str).2.flatMap
        (FramebufferCall.writes d.terminal.framebuffer format)) d.mem⟩ := by
  induction str generalizing d with
  | nil => rfl
  | cons c str ih =>
    obtain ⟨-, -, hfb⟩ := terminalPutChar_frame d.terminal c
    show (d.step format (.putChar c)).run format (str.map .putChar) = _
    rw [ih, terminalWriteString]
    dsimp only
    rw [List.flatMap_append, paint_append, show (d.step format (.putChar c)).terminal.framebuffer
      = d.terminal.framebuffer from hfb]
    rfl

/-- **No call writes behind the buffer.** -/
theorem SetUp.run_outside (h : SetUp framebuffer d.terminal)
    (hscreen : TerminalScreen framebuffer format) (hon : d.terminal.OnScreen)
    (calls : List TerminalCall) {i : BitVec 64}
    (hi : framebuffer.height.toNat * format.stride ≤ i.toNat) :
    (d.run format calls).mem i = d.mem i := by
  induction calls generalizing d with
  | nil => rfl
  | cons call calls ih =>
    obtain ⟨hnext, hon'⟩ := h.step hscreen hon call
    refine (ih hnext hon').trans ?_
    cases call with
    | putChar c =>
      refine paint_of_not_mem fun p hp hindex => ?_
      rw [h.framebuffer_eq] at hp
      have hlt := h.index_lt hscreen hon hp
      rw [hindex] at hlt
      exact absurd hi (Nat.not_le_of_lt hlt)
    | setColor color => rfl

end Buffer
