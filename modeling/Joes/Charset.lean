import Mathlib.Data.BitVec
import Mathlib.Data.List.GetD

/-!
# The charset

`charset.c`, which a tool makes of a font: a bitmap of 10 by 10 pixels for each of
the printable characters. A row is written here with its bits from the left, as the
file has its pixels.

What drawing needs to know of the bitmaps is how far to the right they go. Six columns
of each have pixels in them, and the letter R is the only one with a pixel in the
seventh (`charset_columns`). Both are facts about single rows: under the mask of the
columns from the seventh on every row of the other glyphs is 0, and under that from the
eighth on every row of the R. So the table is evaluated twice, once for each mask
(`charset_rows`, `charset_rows_R`), and a pixel that is set is in some row of some glyph
(`exists_row_of_charsetPixel`), where the mask tells its column (`getMsbD_mask`). The
exception is needed: the R has a dot there, in the row of its foot (`charsetPixel_R`).
-/

/-- `CHARACTER_WIDTH`. -/
def characterWidth : ℕ := 10

/-- `CHARACTER_HEIGHT`. -/
def characterHeight : ℕ := 10

/-- A bitmap, by its rows from the top and the bits of a row from the left. -/
abbrev Glyph := List (BitVec 10)

/-- `charset`. -/
def charset : List Glyph := [
  -- from 0x20 on
  [0b0000000000#10, 0b0000000000#10, 0b0000000000#10, 0b0000000000#10, 0b0000000000#10,
    0b0000000000#10, 0b0000000000#10, 0b0000000000#10, 0b0000000000#10, 0b0000000000#10],
  [0b0000000000#10, 0b0001000000#10, 0b0001000000#10, 0b0001000000#10, 0b0001000000#10,
    0b0001000000#10, 0b0000000000#10, 0b0001000000#10, 0b0000000000#10, 0b0000000000#10],
  [0b0000000000#10, 0b0010100000#10, 0b0010100000#10, 0b0010100000#10, 0b0000000000#10,
    0b0000000000#10, 0b0000000000#10, 0b0000000000#10, 0b0000000000#10, 0b0000000000#10],
  [0b0000000000#10, 0b0010100000#10, 0b0010100000#10, 0b0111110000#10, 0b0101000000#10,
    0b1111100000#10, 0b0101000000#10, 0b0101000000#10, 0b0000000000#10, 0b0000000000#10],
  [0b0000000000#10, 0b0001000000#10, 0b0011110000#10, 0b0101000000#10, 0b0111000000#10,
    0b0001110000#10, 0b0001010000#10, 0b0111100000#10, 0b0001000000#10, 0b0000000000#10],
  [0b0000000000#10, 0b1110000000#10, 0b1010000000#10, 0b1110100000#10, 0b0011000000#10,
    0b0101110000#10, 0b0001010000#10, 0b0001110000#10, 0b0000000000#10, 0b0000000000#10],
  [0b0000000000#10, 0b0011100000#10, 0b0010000000#10, 0b0011000000#10, 0b0101010000#10,
    0b0100110000#10, 0b0100100000#10, 0b0011010000#10, 0b0000000000#10, 0b0000000000#10],
  [0b0000000000#10, 0b0001000000#10, 0b0001000000#10, 0b0001000000#10, 0b0000000000#10,
    0b0000000000#10, 0b0000000000#10, 0b0000000000#10, 0b0000000000#10, 0b0000000000#10],
  [0b0001000000#10, 0b0010000000#10, 0b0010000000#10, 0b0010000000#10, 0b0010000000#10,
    0b0010000000#10, 0b0010000000#10, 0b0010000000#10, 0b0001000000#10, 0b0000000000#10],
  [0b0010000000#10, 0b0010000000#10, 0b0001000000#10, 0b0001000000#10, 0b0001000000#10,
    0b0001000000#10, 0b0001000000#10, 0b0010000000#10, 0b0010000000#10, 0b0000000000#10],
  [0b0000000000#10, 0b0101010000#10, 0b0011100000#10, 0b0011100000#10, 0b0101010000#10,
    0b0000000000#10, 0b0000000000#10, 0b0000000000#10, 0b0000000000#10, 0b0000000000#10],
  [0b0000000000#10, 0b0000000000#10, 0b0001000000#10, 0b0001000000#10, 0b0111110000#10,
    0b0001000000#10, 0b0001000000#10, 0b0000000000#10, 0b0000000000#10, 0b0000000000#10],
  [0b0000000000#10, 0b0000000000#10, 0b0000000000#10, 0b0000000000#10, 0b0000000000#10,
    0b0000000000#10, 0b0000000000#10, 0b0010000000#10, 0b0010000000#10, 0b0010000000#10],
  [0b0000000000#10, 0b0000000000#10, 0b0000000000#10, 0b0000000000#10, 0b0000000000#10,
    0b0011100000#10, 0b0000000000#10, 0b0000000000#10, 0b0000000000#10, 0b0000000000#10],
  [0b0000000000#10, 0b0000000000#10, 0b0000000000#10, 0b0000000000#10, 0b0000000000#10,
    0b0000000000#10, 0b0000000000#10, 0b0010000000#10, 0b0000000000#10, 0b0000000000#10],
  [0b0000000000#10, 0b0000010000#10, 0b0000100000#10, 0b0000100000#10, 0b0001000000#10,
    0b0001000000#10, 0b0010000000#10, 0b0010000000#10, 0b0100000000#10, 0b0000000000#10],
  -- from 0x30 on
  [0b0000000000#10, 0b0011100000#10, 0b0100010000#10, 0b0100010000#10, 0b0101010000#10,
    0b0100010000#10, 0b0100010000#10, 0b0011100000#10, 0b0000000000#10, 0b0000000000#10],
  [0b0000000000#10, 0b0111000000#10, 0b0001000000#10, 0b0001000000#10, 0b0001000000#10,
    0b0001000000#10, 0b0001000000#10, 0b0111110000#10, 0b0000000000#10, 0b0000000000#10],
  [0b0000000000#10, 0b0011100000#10, 0b0100010000#10, 0b0000010000#10, 0b0000110000#10,
    0b0001100000#10, 0b0010000000#10, 0b0111110000#10, 0b0000000000#10, 0b0000000000#10],
  [0b0000000000#10, 0b0011100000#10, 0b0100010000#10, 0b0000010000#10, 0b0011100000#10,
    0b0000010000#10, 0b0100010000#10, 0b0011100000#10, 0b0000000000#10, 0b0000000000#10],
  [0b0000000000#10, 0b0000100000#10, 0b0001100000#10, 0b0010100000#10, 0b0110100000#10,
    0b0111110000#10, 0b0000100000#10, 0b0000100000#10, 0b0000000000#10, 0b0000000000#10],
  [0b0000000000#10, 0b0111100000#10, 0b0100000000#10, 0b0111100000#10, 0b0000010000#10,
    0b0000010000#10, 0b0000010000#10, 0b0111100000#10, 0b0000000000#10, 0b0000000000#10],
  [0b0000000000#10, 0b0011110000#10, 0b0110000000#10, 0b0100000000#10, 0b0111100000#10,
    0b0100010000#10, 0b0100010000#10, 0b0011100000#10, 0b0000000000#10, 0b0000000000#10],
  [0b0000000000#10, 0b0111110000#10, 0b0000110000#10, 0b0000100000#10, 0b0000100000#10,
    0b0001000000#10, 0b0001000000#10, 0b0010000000#10, 0b0000000000#10, 0b0000000000#10],
  [0b0000000000#10, 0b0011100000#10, 0b0100010000#10, 0b0100010000#10, 0b0011100000#10,
    0b0100010000#10, 0b0100010000#10, 0b0011100000#10, 0b0000000000#10, 0b0000000000#10],
  [0b0000000000#10, 0b0011100000#10, 0b0100010000#10, 0b0100010000#10, 0b0011110000#10,
    0b0000010000#10, 0b0000110000#10, 0b0111100000#10, 0b0000000000#10, 0b0000000000#10],
  [0b0000000000#10, 0b0000000000#10, 0b0000000000#10, 0b0010000000#10, 0b0000000000#10,
    0b0000000000#10, 0b0000000000#10, 0b0010000000#10, 0b0000000000#10, 0b0000000000#10],
  [0b0000000000#10, 0b0000000000#10, 0b0000000000#10, 0b0010000000#10, 0b0000000000#10,
    0b0000000000#10, 0b0000000000#10, 0b0010000000#10, 0b0010000000#10, 0b0010000000#10],
  [0b0000000000#10, 0b0000000000#10, 0b0000010000#10, 0b0011100000#10, 0b0100000000#10,
    0b0011100000#10, 0b0000010000#10, 0b0000000000#10, 0b0000000000#10, 0b0000000000#10],
  [0b0000000000#10, 0b0000000000#10, 0b0000000000#10, 0b1111100000#10, 0b0000000000#10,
    0b1111100000#10, 0b0000000000#10, 0b0000000000#10, 0b0000000000#10, 0b0000000000#10],
  [0b0000000000#10, 0b0000000000#10, 0b0100000000#10, 0b0011100000#10, 0b0000010000#10,
    0b0011100000#10, 0b0100000000#10, 0b0000000000#10, 0b0000000000#10, 0b0000000000#10],
  [0b0000000000#10, 0b0111100000#10, 0b0000100000#10, 0b0001000000#10, 0b0010000000#10,
    0b0010000000#10, 0b0000000000#10, 0b0010000000#10, 0b0000000000#10, 0b0000000000#10],
  -- from 0x40 on
  [0b0000000000#10, 0b0011100000#10, 0b0010010000#10, 0b0101110000#10, 0b0101010000#10,
    0b0101010000#10, 0b0101010000#10, 0b0101110000#10, 0b0010000000#10, 0b0001100000#10],
  [0b0000000000#10, 0b0001000000#10, 0b0001000000#10, 0b0010100000#10, 0b0010100000#10,
    0b0011100000#10, 0b0100010000#10, 0b0100010000#10, 0b0000000000#10, 0b0000000000#10],
  [0b0000000000#10, 0b0111100000#10, 0b0100010000#10, 0b0100010000#10, 0b0111100000#10,
    0b0100010000#10, 0b0100010000#10, 0b0111100000#10, 0b0000000000#10, 0b0000000000#10],
  [0b0000000000#10, 0b0011110000#10, 0b0110010000#10, 0b0100000000#10, 0b0100000000#10,
    0b0100000000#10, 0b0110010000#10, 0b0011110000#10, 0b0000000000#10, 0b0000000000#10],
  [0b0000000000#10, 0b0111100000#10, 0b0100110000#10, 0b0100010000#10, 0b0100010000#10,
    0b0100010000#10, 0b0100110000#10, 0b0111100000#10, 0b0000000000#10, 0b0000000000#10],
  [0b0000000000#10, 0b0111110000#10, 0b0100000000#10, 0b0100000000#10, 0b0111110000#10,
    0b0100000000#10, 0b0100000000#10, 0b0111110000#10, 0b0000000000#10, 0b0000000000#10],
  [0b0000000000#10, 0b0111110000#10, 0b0100000000#10, 0b0100000000#10, 0b0111110000#10,
    0b0100000000#10, 0b0100000000#10, 0b0100000000#10, 0b0000000000#10, 0b0000000000#10],
  [0b0000000000#10, 0b0011100000#10, 0b0110010000#10, 0b0100000000#10, 0b0100110000#10,
    0b0100010000#10, 0b0110010000#10, 0b0011110000#10, 0b0000000000#10, 0b0000000000#10],
  [0b0000000000#10, 0b0100010000#10, 0b0100010000#10, 0b0100010000#10, 0b0111110000#10,
    0b0100010000#10, 0b0100010000#10, 0b0100010000#10, 0b0000000000#10, 0b0000000000#10],
  [0b0000000000#10, 0b0111110000#10, 0b0001000000#10, 0b0001000000#10, 0b0001000000#10,
    0b0001000000#10, 0b0001000000#10, 0b0111110000#10, 0b0000000000#10, 0b0000000000#10],
  [0b0000000000#10, 0b0011100000#10, 0b0000100000#10, 0b0000100000#10, 0b0000100000#10,
    0b0000100000#10, 0b0100100000#10, 0b0011000000#10, 0b0000000000#10, 0b0000000000#10],
  [0b0000000000#10, 0b0100010000#10, 0b0100100000#10, 0b0101000000#10, 0b0110000000#10,
    0b0101000000#10, 0b0100100000#10, 0b0100010000#10, 0b0000000000#10, 0b0000000000#10],
  [0b0000000000#10, 0b0100000000#10, 0b0100000000#10, 0b0100000000#10, 0b0100000000#10,
    0b0100000000#10, 0b0100000000#10, 0b0111110000#10, 0b0000000000#10, 0b0000000000#10],
  [0b0000000000#10, 0b0100010000#10, 0b0110110000#10, 0b0110110000#10, 0b0101010000#10,
    0b0100010000#10, 0b0100010000#10, 0b0100010000#10, 0b0000000000#10, 0b0000000000#10],
  [0b0000000000#10, 0b0100010000#10, 0b0110010000#10, 0b0110010000#10, 0b0101010000#10,
    0b0100110000#10, 0b0100110000#10, 0b0100010000#10, 0b0000000000#10, 0b0000000000#10],
  [0b0000000000#10, 0b0011100000#10, 0b0100010000#10, 0b0100010000#10, 0b0100010000#10,
    0b0100010000#10, 0b0100010000#10, 0b0011100000#10, 0b0000000000#10, 0b0000000000#10],
  -- from 0x50 on
  [0b0000000000#10, 0b0111100000#10, 0b0100010000#10, 0b0100010000#10, 0b0111100000#10,
    0b0100000000#10, 0b0100000000#10, 0b0100000000#10, 0b0000000000#10, 0b0000000000#10],
  [0b0000000000#10, 0b0011100000#10, 0b0100010000#10, 0b0100010000#10, 0b0100010000#10,
    0b0100010000#10, 0b0100010000#10, 0b0011100000#10, 0b0000110000#10, 0b0000000000#10],
  [0b0000000000#10, 0b0111100000#10, 0b0100010000#10, 0b0100010000#10, 0b0111100000#10,
    0b0100110000#10, 0b0100010000#10, 0b0100001000#10, 0b0000000000#10, 0b0000000000#10],
  [0b0000000000#10, 0b0011100000#10, 0b0100010000#10, 0b0100000000#10, 0b0011100000#10,
    0b0000010000#10, 0b0100010000#10, 0b0011100000#10, 0b0000000000#10, 0b0000000000#10],
  [0b0000000000#10, 0b0111110000#10, 0b0001000000#10, 0b0001000000#10, 0b0001000000#10,
    0b0001000000#10, 0b0001000000#10, 0b0001000000#10, 0b0000000000#10, 0b0000000000#10],
  [0b0000000000#10, 0b0100010000#10, 0b0100010000#10, 0b0100010000#10, 0b0100010000#10,
    0b0100010000#10, 0b0100010000#10, 0b0011100000#10, 0b0000000000#10, 0b0000000000#10],
  [0b0000000000#10, 0b0100010000#10, 0b0100010000#10, 0b0010100000#10, 0b0010100000#10,
    0b0010100000#10, 0b0001000000#10, 0b0001000000#10, 0b0000000000#10, 0b0000000000#10],
  [0b0000000000#10, 0b1000010000#10, 0b1011010000#10, 0b1011010000#10, 0b0111100000#10,
    0b0100100000#10, 0b0100100000#10, 0b0100100000#10, 0b0000000000#10, 0b0000000000#10],
  [0b0000000000#10, 0b0100010000#10, 0b0010100000#10, 0b0010100000#10, 0b0001000000#10,
    0b0010100000#10, 0b0010100000#10, 0b0100010000#10, 0b0000000000#10, 0b0000000000#10],
  [0b0000000000#10, 0b0100010000#10, 0b0010100000#10, 0b0010100000#10, 0b0001000000#10,
    0b0001000000#10, 0b0001000000#10, 0b0001000000#10, 0b0000000000#10, 0b0000000000#10],
  [0b0000000000#10, 0b0111110000#10, 0b0000100000#10, 0b0000100000#10, 0b0001000000#10,
    0b0010000000#10, 0b0010000000#10, 0b0111110000#10, 0b0000000000#10, 0b0000000000#10],
  [0b0011000000#10, 0b0010000000#10, 0b0010000000#10, 0b0010000000#10, 0b0010000000#10,
    0b0010000000#10, 0b0010000000#10, 0b0010000000#10, 0b0011000000#10, 0b0000000000#10],
  [0b0000000000#10, 0b0100000000#10, 0b0010000000#10, 0b0010000000#10, 0b0001000000#10,
    0b0001000000#10, 0b0000100000#10, 0b0000100000#10, 0b0000010000#10, 0b0000000000#10],
  [0b0011000000#10, 0b0001000000#10, 0b0001000000#10, 0b0001000000#10, 0b0001000000#10,
    0b0001000000#10, 0b0001000000#10, 0b0001000000#10, 0b0011000000#10, 0b0000000000#10],
  [0b0000000000#10, 0b0010000000#10, 0b0101000000#10, 0b1000100000#10, 0b0000000000#10,
    0b0000000000#10, 0b0000000000#10, 0b0000000000#10, 0b0000000000#10, 0b0000000000#10],
  [0b0000000000#10, 0b0000000000#10, 0b0000000000#10, 0b0000000000#10, 0b0000000000#10,
    0b0000000000#10, 0b0000000000#10, 0b0000000000#10, 0b0000000000#10, 0b1111110000#10],
  -- from 0x60 on
  [0b0100000000#10, 0b0010000000#10, 0b0000000000#10, 0b0000000000#10, 0b0000000000#10,
    0b0000000000#10, 0b0000000000#10, 0b0000000000#10, 0b0000000000#10, 0b0000000000#10],
  [0b0000000000#10, 0b0000000000#10, 0b0000000000#10, 0b0111100000#10, 0b0000010000#10,
    0b0011110000#10, 0b0100010000#10, 0b0111110000#10, 0b0000000000#10, 0b0000000000#10],
  [0b0100000000#10, 0b0100000000#10, 0b0100000000#10, 0b0111100000#10, 0b0100010000#10,
    0b0100010000#10, 0b0100010000#10, 0b0111100000#10, 0b0000000000#10, 0b0000000000#10],
  [0b0000000000#10, 0b0000000000#10, 0b0000000000#10, 0b0011100000#10, 0b0100000000#10,
    0b0100000000#10, 0b0100000000#10, 0b0011100000#10, 0b0000000000#10, 0b0000000000#10],
  [0b0000010000#10, 0b0000010000#10, 0b0000010000#10, 0b0011110000#10, 0b0100010000#10,
    0b0100010000#10, 0b0100010000#10, 0b0011110000#10, 0b0000000000#10, 0b0000000000#10],
  [0b0000000000#10, 0b0000000000#10, 0b0000000000#10, 0b0011100000#10, 0b0100010000#10,
    0b0111110000#10, 0b0100000000#10, 0b0011110000#10, 0b0000000000#10, 0b0000000000#10],
  [0b0001100000#10, 0b0010000000#10, 0b0010000000#10, 0b0111100000#10, 0b0010000000#10,
    0b0010000000#10, 0b0010000000#10, 0b0010000000#10, 0b0000000000#10, 0b0000000000#10],
  [0b0000000000#10, 0b0000000000#10, 0b0000000000#10, 0b0011110000#10, 0b0100010000#10,
    0b0100010000#10, 0b0100010000#10, 0b0011110000#10, 0b0000010000#10, 0b0011100000#10],
  [0b0100000000#10, 0b0100000000#10, 0b0100000000#10, 0b0101100000#10, 0b0110010000#10,
    0b0100010000#10, 0b0100010000#10, 0b0100010000#10, 0b0000000000#10, 0b0000000000#10],
  [0b0001000000#10, 0b0000000000#10, 0b0000000000#10, 0b0011000000#10, 0b0001000000#10,
    0b0001000000#10, 0b0001000000#10, 0b0111110000#10, 0b0000000000#10, 0b0000000000#10],
  [0b0001000000#10, 0b0000000000#10, 0b0000000000#10, 0b0111000000#10, 0b0001000000#10,
    0b0001000000#10, 0b0001000000#10, 0b0001000000#10, 0b0001000000#10, 0b0110000000#10],
  [0b0100000000#10, 0b0100000000#10, 0b0100000000#10, 0b0100100000#10, 0b0101000000#10,
    0b0111000000#10, 0b0100100000#10, 0b0100010000#10, 0b0000000000#10, 0b0000000000#10],
  [0b1110000000#10, 0b0010000000#10, 0b0010000000#10, 0b0010000000#10, 0b0010000000#10,
    0b0010000000#10, 0b0010000000#10, 0b0001100000#10, 0b0000000000#10, 0b0000000000#10],
  [0b0000000000#10, 0b0000000000#10, 0b0000000000#10, 0b0111110000#10, 0b0101010000#10,
    0b0101010000#10, 0b0101010000#10, 0b0101010000#10, 0b0000000000#10, 0b0000000000#10],
  [0b0000000000#10, 0b0000000000#10, 0b0000000000#10, 0b0101100000#10, 0b0110010000#10,
    0b0100010000#10, 0b0100010000#10, 0b0100010000#10, 0b0000000000#10, 0b0000000000#10],
  [0b0000000000#10, 0b0000000000#10, 0b0000000000#10, 0b0011100000#10, 0b0100010000#10,
    0b0100010000#10, 0b0100010000#10, 0b0011100000#10, 0b0000000000#10, 0b0000000000#10],
  -- from 0x70 on
  [0b0000000000#10, 0b0000000000#10, 0b0000000000#10, 0b0111100000#10, 0b0100010000#10,
    0b0100010000#10, 0b0100010000#10, 0b0111100000#10, 0b0100000000#10, 0b0100000000#10],
  [0b0000000000#10, 0b0000000000#10, 0b0000000000#10, 0b0011110000#10, 0b0100010000#10,
    0b0100010000#10, 0b0100010000#10, 0b0011110000#10, 0b0000010000#10, 0b0000010000#10],
  [0b0000000000#10, 0b0000000000#10, 0b0000000000#10, 0b0011110000#10, 0b0010010000#10,
    0b0010000000#10, 0b0010000000#10, 0b0010000000#10, 0b0000000000#10, 0b0000000000#10],
  [0b0000000000#10, 0b0000000000#10, 0b0000000000#10, 0b0011110000#10, 0b0100000000#10,
    0b0011110000#10, 0b0000010000#10, 0b0111100000#10, 0b0000000000#10, 0b0000000000#10],
  [0b0000000000#10, 0b0010000000#10, 0b0010000000#10, 0b0111100000#10, 0b0010000000#10,
    0b0010000000#10, 0b0010000000#10, 0b0011100000#10, 0b0000000000#10, 0b0000000000#10],
  [0b0000000000#10, 0b0000000000#10, 0b0000000000#10, 0b0100010000#10, 0b0100010000#10,
    0b0100010000#10, 0b0100010000#10, 0b0011110000#10, 0b0000000000#10, 0b0000000000#10],
  [0b0000000000#10, 0b0000000000#10, 0b0000000000#10, 0b0100010000#10, 0b0010100000#10,
    0b0010100000#10, 0b0010100000#10, 0b0001000000#10, 0b0000000000#10, 0b0000000000#10],
  [0b0000000000#10, 0b0000000000#10, 0b0000000000#10, 0b0100010000#10, 0b0101010000#10,
    0b0010100000#10, 0b0010100000#10, 0b0010100000#10, 0b0000000000#10, 0b0000000000#10],
  [0b0000000000#10, 0b0000000000#10, 0b0000000000#10, 0b0110110000#10, 0b0010100000#10,
    0b0001000000#10, 0b0010100000#10, 0b0110110000#10, 0b0000000000#10, 0b0000000000#10],
  [0b0000000000#10, 0b0000000000#10, 0b0000000000#10, 0b0100010000#10, 0b0010100000#10,
    0b0010100000#10, 0b0001000000#10, 0b0001000000#10, 0b0001000000#10, 0b0110000000#10],
  [0b0000000000#10, 0b0000000000#10, 0b0000000000#10, 0b0111110000#10, 0b0000100000#10,
    0b0001000000#10, 0b0010000000#10, 0b0111110000#10, 0b0000000000#10, 0b0000000000#10],
  [0b0001100000#10, 0b0001000000#10, 0b0001000000#10, 0b0001000000#10, 0b0110000000#10,
    0b0001000000#10, 0b0001000000#10, 0b0001000000#10, 0b0001100000#10, 0b0000000000#10],
  [0b0001000000#10, 0b0001000000#10, 0b0001000000#10, 0b0001000000#10, 0b0001000000#10,
    0b0001000000#10, 0b0001000000#10, 0b0001000000#10, 0b0001000000#10, 0b0001000000#10],
  [0b0011000000#10, 0b0001000000#10, 0b0001000000#10, 0b0001000000#10, 0b0000110000#10,
    0b0001000000#10, 0b0001000000#10, 0b0001000000#10, 0b0011000000#10, 0b0000000000#10],
  [0b0000000000#10, 0b0000000000#10, 0b0000000000#10, 0b0000000000#10, 0b0111000000#10,
    0b0000110000#10, 0b0000000000#10, 0b0000000000#10, 0b0000000000#10, 0b0000000000#10]]

/-- `CHARSET_INDEX`, of a printable character. -/
def charsetIndex (c : BitVec 8) : ℕ := c.toNat - 32

/-- `CHARSET(c)[x + y * CHARACTER_WIDTH] == 1`, of a pixel in row `y` and column `x`. -/
def charsetPixel (c : BitVec 8) (x y : ℕ) : Bool :=
  ((charset.getD (charsetIndex c) []).getD y 0#10).getMsbD x

/-- The rows of all glyphs but that of the letter R. -/
theorem charset_rows : ((charset.eraseIdx 50).all fun g => g.all fun row =>
    row &&& 0b0000001111#10 == 0#10) = true := by
  decide +kernel

/-- The rows of the letter R. -/
theorem charset_rows_R : ((charset.getD 50 []).all fun row =>
    row &&& 0b0000000111#10 == 0#10) = true := by
  decide +kernel

/-- A pixel of a row is one of a glyph. -/
theorem exists_row_of_charsetPixel {c : BitVec 8} {x y : ℕ} (h : charsetPixel c x y = true) :
    charsetIndex c < charset.length
      ∧ ∃ row ∈ charset.getD (charsetIndex c) [], row.getMsbD x = true := by
  unfold charsetPixel at h
  have hy : y < (charset.getD (charsetIndex c) []).length := by
    by_contra hy
    rw [List.getD_eq_default _ _ (by omega), BitVec.getMsbD_zero] at h
    cases h
  rw [List.getD_eq_getElem _ _ hy] at h
  refine ⟨?_, _, List.getElem_mem hy, h⟩
  by_contra hi
  rw [List.getD_eq_default _ _ (not_lt.mp hi)] at hy
  cases hy

/-- Under a mask that takes no pixel of a row, the row has none. -/
theorem getMsbD_mask {row mask : BitVec 10} {x : ℕ} (h : (row &&& mask == 0#10) = true)
    (hx : row.getMsbD x = true) : mask.getMsbD x = false := by
  have hbit := congrArg (BitVec.getMsbD · x) (eq_of_beq h)
  simpa [hx] using hbit

/-- **The columns of the charset**: a glyph has six, and that of the letter R a pixel in
the seventh. -/
theorem charset_columns {c : BitVec 8} {x y : ℕ} (h : charsetPixel c x y = true) :
    x < 6 ∨ c = 0x52#8 ∧ x = 6 := by
  obtain ⟨hi, row, hrow, hpixel⟩ := exists_row_of_charsetPixel h
  have hx := BitVec.lt_of_getMsbD hpixel
  by_cases hR : charsetIndex c = 50
  · have hc : c = 0x52#8 := by
      unfold charsetIndex at hR
      bv_omega
    rw [hR] at hrow
    have hmask := getMsbD_mask (List.all_eq_true.mp charset_rows_R row hrow) hpixel
    have hseven : ∀ x < 10, (0b0000000111#10).getMsbD x = false → x < 6 ∨ x = 6 := by decide
    exact (hseven x hx hmask).imp_right fun hsix => ⟨hc, hsix⟩
  · have hmem : charset.getD (charsetIndex c) [] ∈ charset.eraseIdx 50 := by
      rw [List.getD_eq_getElem _ _ hi, List.mem_eraseIdx_iff_getElem]
      exact ⟨charsetIndex c, hi, hR, rfl⟩
    have hmask := getMsbD_mask
      (List.all_eq_true.mp (List.all_eq_true.mp charset_rows _ hmem) row hrow) hpixel
    have hsix : ∀ x < 10, (0b0000001111#10).getMsbD x = false → x < 6 := by decide
    exact .inl (hsix x hx hmask)

/-- That pixel is in the row of its foot. -/
theorem charsetPixel_R : charsetPixel 0x52#8 6 7 = true := by decide +kernel
