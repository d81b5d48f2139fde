import Lavoro.Lib.Blocks
import Lavoro.Screen.LBitmap

/-!
# The format of the bitmaps

A file in the format is a `Bmp` filled with the colours of the pixels: the rows from the
bottom to the top, each with its padding to a multiple of four bytes. `LBitmap` reads the rows
without looking at the padding, so that it finds the colours of every array exactly when no
row but the last is followed by one.
-/

namespace Lavoro.Screen
open Lib

structure Colour where
  red : UInt8
  green : UInt8
  blue : UInt8
  deriving Repr, DecidableEq

/-- The order of the components in the file. -/
def Colour.bytes (c : Colour) : List UInt8 := [c.blue, c.green, c.red]

/-- `0x00RRGGBB`. -/
def Colour.word (c : Colour) : BitVec 32 :=
  BitVec.ofNat 32 (c.red.toNat * 65536 + c.green.toNat * 256 + c.blue.toNat)

/-- The bytes that follow a row, so that it ends at a multiple of four. -/
def rowPadding (w : Nat) : Nat := (4 - 3 * w % 4) % 4

/-- A row as it is stored. -/
def rowSize (w : Nat) : Nat := 3 * w + rowPadding w

theorem rowPadding_eq_zero {w : Nat} : rowPadding w = 0 ↔ w % 4 = 0 := by
  unfold rowPadding
  omega

/-- What a file with an uncompressed `w` by `h` bitmap of 24 bits holds besides the colours. -/
structure Bmp (w h : Nat) where
  /-- `Reserved1` and `Reserved2`. -/
  reserved : List UInt8
  /-- The information header behind its first five members. -/
  more : List UInt8
  /-- What lies between the headers and the pixels. -/
  gap : List UInt8
  /-- What follows the `r`-th stored row. -/
  padding : Nat → List UInt8
  /-- What lies behind the pixels. -/
  trailing : List UInt8
  wide : 1 ≤ w
  high : 1 ≤ h
  words : reserved.length = 4
  /-- The compression method is the first word of `more`. -/
  uncompressed : ∀ b ∈ more.take 4, b = 0
  padded : ∀ r, (padding r).length = rowPadding w
  fits : 30 + more.length + gap.length + rowSize w * h + trailing.length < 4294967296

namespace Bmp

variable {w h : Nat}

/-- `BitmapOffset`. -/
def offset (b : Bmp w h) : Nat := 30 + b.more.length + b.gap.length

/-- `FileSize`. -/
def size (b : Bmp w h) : Nat := b.offset + rowSize w * h + b.trailing.length

/-- The pixels of the row `y` from the top, from left to right. -/
def row (w : Nat) (pixel : Nat → Nat → Colour) (y : Nat) : List UInt8 :=
  blocks w fun x => (pixel x y).bytes

/-- The stored rows, the bottom one first. -/
def data (b : Bmp w h) (pixel : Nat → Nat → Colour) : List UInt8 :=
  blocks h fun r => row w pixel (h - 1 - r) ++ b.padding r

/-- Everything before the pixels. -/
def head (b : Bmp w h) : List UInt8 :=
  [0x42, 0x4d] ++ bytesOf 4 b.size ++ b.reserved ++ bytesOf 4 b.offset ++
    bytesOf 4 (16 + b.more.length) ++ bytesOf 4 w ++ bytesOf 4 h ++ bytesOf 2 1 ++ bytesOf 2 24 ++
    b.more ++ b.gap

/-- The whole file. -/
def content (b : Bmp w h) (pixel : Nat → Nat → Colour) : List UInt8 :=
  b.head ++ (b.data pixel ++ b.trailing)

theorem length_row (pixel : Nat → Nat → Colour) (y : Nat) : (row w pixel y).length = 3 * w :=
  length_blocks fun _ _ => rfl

theorem length_stored (b : Bmp w h) (pixel : Nat → Nat → Colour) (r y : Nat) :
    (row w pixel y ++ b.padding r).length = rowSize w := by
  rw [List.length_append, length_row, b.padded, rowSize]

theorem length_data (b : Bmp w h) (pixel : Nat → Nat → Colour) :
    (b.data pixel).length = rowSize w * h :=
  length_blocks fun _ _ => b.length_stored pixel _ _

theorem length_head (b : Bmp w h) : b.head.length = b.offset := by
  have words := b.words
  simp only [head, offset, List.length_append, List.length_cons, List.length_nil, length_bytesOf]
  omega

theorem length_content (b : Bmp w h) (pixel : Nat → Nat → Colour) :
    (b.content pixel).length = b.size := by
  rw [content, List.length_append, List.length_append, length_head, length_data, size, Nat.add_assoc]

end Bmp

/-- A 32-bit word between other bytes. -/
theorem toNat_wordAt {c before after : List UInt8} {offset v : Nat} (here : before.length = offset)
    (fits : v < 4294967296) (split : c = before ++ (bytesOf 4 v ++ after)) :
    (wordAt c offset).toNat = v := by
  rw [split, wordAt, List.drop_left' here, List.take_left' (length_bytesOf 4 v),
    littleEndian_bytesOf fits, BitVec.toNat_ofNat]
  exact Nat.mod_eq_of_lt fits

/-- A cell whose three bytes are those of a colour. -/
theorem colourAt_bytes {l after : List UInt8} {j : Nat} {c : Colour}
    (here : l.drop (3 * j) = c.bytes ++ after) : colourAt l j = c.word := by
  have value : littleEndian c.bytes = c.red.toNat * 65536 + c.green.toNat * 256 + c.blue.toNat := by
    simp only [Colour.bytes, littleEndian]
    omega
  rw [colourAt, here, List.take_left' (show c.bytes.length = 3 from rfl), value, Colour.word]

/-- The low byte of a cell is the first of the three. -/
theorem colourAt_low {l after : List UInt8} {j : Nat} {b : UInt8} (here : l.drop (3 * j) = b :: after) :
    (colourAt l j).toNat % 256 = b.toNat := by
  have small := b.toNat_lt
  rw [colourAt, here, List.take_succ_cons, littleEndian, BitVec.toNat_ofNat]
  omega

theorem Colour.word_low (c : Colour) : c.word.toNat % 256 = c.blue.toNat := by
  have small := c.blue.toNat_lt
  rw [Colour.word, BitVec.toNat_ofNat]
  omega

namespace Bmp

variable {w h : Nat}

theorem cells_lt (b : Bmp w h) : w * h < 2147483648 := by
  have fits := b.fits
  have rows : 3 * w * h ≤ rowSize w * h := Nat.mul_le_mul_right h (Nat.le_add_right _ _)
  rw [Nat.mul_assoc] at rows
  omega

/-- The headers are such that the loading can be followed. -/
theorem headerOf (b : Bmp w h) (pixel : Nat → Nat → Colour) :
    HeaderOf (b.content pixel) b.offset w h := by
  have fits := b.fits
  have cells := b.cells_lt
  have width : w ≤ w * h := Nat.le_mul_of_pos_right w b.high
  have height : h ≤ w * h := Nat.le_mul_of_pos_left h b.wide
  have offset : b.offset = 30 + b.more.length + b.gap.length := rfl
  have length : (b.content pixel).length = b.offset + rowSize w * h + b.trailing.length :=
    b.length_content pixel
  have data : 0 < rowSize w * h := by
    refine Nat.mul_pos ?_ b.high
    have wide := b.wide
    unfold rowSize
    omega
  -- the bytes before each of the three members
  have toOffset : ([0x42, 0x4d] ++ bytesOf 4 b.size ++ b.reserved).length = 10 := by
    simp [b.words]
  have toWidth : ([0x42, 0x4d] ++ bytesOf 4 b.size ++ b.reserved ++ bytesOf 4 b.offset ++
      bytesOf 4 (16 + b.more.length)).length = 18 := by
    simp [b.words]
  have toHeight : ([0x42, 0x4d] ++ bytesOf 4 b.size ++ b.reserved ++ bytesOf 4 b.offset ++
      bytesOf 4 (16 + b.more.length) ++ bytesOf 4 w).length = 22 := by
    simp [b.words]
  refine ⟨by omega, by omega, ?_, by omega, ?_, ?_, b.wide, cells⟩
  · apply toNat_wordAt toOffset (show b.offset < 4294967296 by omega)
    simp only [content, head, List.append_assoc]
    rfl
  · apply toNat_wordAt toWidth (show w < 4294967296 by omega)
    simp only [content, head, List.append_assoc]
    rfl
  · apply toNat_wordAt toHeight (show h < 4294967296 by omega)
    simp only [content, head, List.append_assoc]
    rfl

theorem drop_head (b : Bmp w h) (pixel : Nat → Nat → Colour) :
    (b.content pixel).drop b.offset = b.data pixel ++ b.trailing :=
  List.drop_left' b.length_head

/-- A pixel of a row that starts at a multiple of three. -/
theorem colourAt_row {l after : List UInt8} {pixel : Nat → Nat → Colour} {k x y : Nat}
    (here : l.drop (3 * k) = row w pixel y ++ after) (left : x < w) :
    colourAt l (k + x) = (pixel x y).word := by
  have uniform : ∀ i, i < w → (pixel i y).bytes.length = 3 := fun _ _ => rfl
  obtain ⟨others, found⟩ := drop_blocks uniform left after
  apply colourAt_bytes
  rw [Nat.mul_add, ← List.drop_drop, here]
  exact found

/-- The stored rows lie where the loading looks for them. -/
theorem drop_data (b : Bmp w h) (pixel : Nat → Nat → Colour) (flush : w % 4 = 0 ∨ h = 1) {r : Nat}
    (inside : r < h) : ∃ after, (b.data pixel ++ b.trailing).drop (3 * (r * w)) =
      row w pixel (h - 1 - r) ++ after := by
  obtain ⟨others, found⟩ := drop_blocks (f := fun r => row w pixel (h - 1 - r) ++ b.padding r)
    (fun _ _ => b.length_stored pixel _ _) inside b.trailing
  have start : rowSize w * r = 3 * (r * w) := by
    rcases flush with aligned | single
    · rw [rowSize, rowPadding_eq_zero.2 aligned, Nat.add_zero, Nat.mul_assoc, Nat.mul_comm w]
    · obtain rfl : r = 0 := by omega
      simp
  rw [start, List.append_assoc] at found
  exact ⟨_, found⟩

end Bmp

/-! ## Decoding -/

section Decoding

variable {Node : Type} [DecidableEq Node] {fw : Firmware Node} {fileName : Str16} {w h : Nat}

/-- A screen with the width, the height and the colours of an array, and nothing written outside
its cells. -/
structure Shows (s : LScreen) (w h : Nat) (pixel : Nat → Nat → Colour) : Prop where
  width : s.w = BitVec.ofNat 32 w
  height : s.h = BitVec.ofNat 32 h
  inside : s.pixels.outside = false
  colours : ∀ x y, x < w → y < h →
    s.getBuffer (BitVec.ofNat 32 x) (BitVec.ofNat 32 y) = some (pixel x y).word

/-- The object loaded from the file shows the array that the file holds. -/
def Decodes (fw : Firmware Node) (fileName : Str16) (memory : Uninitialised) (world : World Node)
    (b : Bmp w h) (pixel : Nat → Nat → Colour) : Prop :=
  Shows (LBitmap.construct fw fileName memory
    (world.setFile (fw.nodeOf fileName) (some (b.content pixel)))).1 w h pixel

/-- Whether a file is decoded depends on the bytes found for each pixel. -/
theorem decodes_iff_colours (well : Readable fw) (named : fileName ≠ []) (memory : Uninitialised)
    (world : World Node) (b : Bmp w h) (pixel : Nat → Nat → Colour) :
    Decodes fw fileName memory world b pixel ↔
      ∀ x y, x < w → y < h →
        colourAt (b.data pixel ++ b.trailing) ((h - 1 - y) * w + x) = (pixel x y).word := by
  obtain ⟨pixels, loaded, outside, cells⟩ :=
    construct_spec well named memory (World.setFile_file_same world _ _) (b.headerOf pixel)
  rw [b.drop_head] at cells
  have shown (x y : Nat) (left : x < w) (up : y < h) :
      (LScreen.mk (BitVec.ofNat 32 w) (BitVec.ofNat 32 h) pixels).getBuffer (BitVec.ofNat 32 x)
        (BitVec.ofNat 32 y) = some (colourAt (b.data pixel ++ b.trailing) ((h - 1 - y) * w + x)) := by
    rw [getBuffer_inside b.cells_lt left up, cells x y left up]
  unfold Decodes
  rw [loaded]
  constructor
  · intro shows x y left up
    exact Option.some.inj ((shown x y left up).symm.trans (shows.colours x y left up))
  · intro colours
    refine ⟨rfl, rfl, outside, fun x y left up => ?_⟩
    rw [shown x y left up, colours x y left up]

/-- In a file with padding between its rows the first cell of the second row is wrong. -/
theorem not_decodes_padded (well : Readable fw) (named : fileName ≠ []) (memory : Uninitialised)
    (world : World Node) (b : Bmp w h) (padded : w % 4 ≠ 0) (two : 1 < h) :
    ∃ pixel, ¬ Decodes fw fileName memory world b pixel := by
  have padding := b.padded 0
  cases stored : b.padding 0 with
  | nil =>
    rw [stored] at padding
    exact absurd (rowPadding_eq_zero.1 padding.symm) padded
  | cons p more =>
    -- the cell gets `p`, whatever its pixel is
    let pixel : Nat → Nat → Colour := fun _ _ => ⟨0, 0, p + 1⟩
    refine ⟨pixel, fun decodes => ?_⟩
    have colour := (decodes_iff_colours well named memory world b pixel).1 decodes 0 (h - 2)
      b.wide (by omega)
    have second : (h - 1 - (h - 2)) * w + 0 = w := by
      rw [show h - 1 - (h - 2) = 1 by omega, Nat.one_mul, Nat.add_zero]
    have found : ∃ after, (b.data pixel ++ b.trailing).drop (3 * w) = p :: after := by
      obtain ⟨others, whole⟩ := drop_blocks
        (f := fun r => Bmp.row w pixel (h - 1 - r) ++ b.padding r) (n := h) (i := 0)
        (fun _ _ => b.length_stored pixel _ _) (by omega) b.trailing
      rw [Nat.mul_zero, List.drop_zero, stored, List.append_assoc] at whole
      refine ⟨more ++ others, ?_⟩
      rw [Bmp.data, whole, List.drop_left' (Bmp.length_row pixel _)]
      rfl
    obtain ⟨after, here⟩ := found
    have low := colourAt_low here
    have small := p.toNat_lt
    rw [second] at colour
    rw [colour, Colour.word_low, UInt8.toNat_add] at low
    simp only [UInt8.reduceToNat] at low
    omega

/-- **Bitmaps are decoded** for every array of colours exactly when no padding lies between
two rows. -/
theorem bitmap_decoded_iff (well : Readable fw) (named : fileName ≠ []) (memory : Uninitialised)
    (world : World Node) (b : Bmp w h) :
    (∀ pixel, Decodes fw fileName memory world b pixel) ↔ w % 4 = 0 ∨ h = 1 := by
  constructor
  · intro decodes
    by_contra padded
    rw [not_or] at padded
    have high := b.high
    obtain ⟨pixel, wrong⟩ := not_decodes_padded well named memory world b padded.1 (by omega)
    exact wrong (decodes pixel)
  · intro flush pixel
    refine (decodes_iff_colours well named memory world b pixel).2 fun x y left up => ?_
    obtain ⟨after, here⟩ := b.drop_data pixel flush (r := h - 1 - y) (by omega)
    rw [Bmp.colourAt_row here left, show h - 1 - (h - 1 - y) = y by omega]

end Decoding

/-- A file with the usual header of 40 bytes and nothing optional. -/
def Bmp.plain (w h : Nat) (wide : 1 ≤ w) (high : 1 ≤ h) (fits : 54 + rowSize w * h < 4294967296) : Bmp w h where
  reserved := [0, 0, 0, 0]
  more := List.replicate 24 0
  gap := []
  padding _ := List.replicate (rowPadding w) 0
  trailing := []
  wide
  high
  words := rfl
  uncompressed _ h := List.eq_of_mem_replicate (List.mem_of_mem_take h)
  padded _ := List.length_replicate
  fits := by simpa using fits

def zeroed : Uninitialised := ⟨fun _ => 0, fun _ => 0, fun _ => 0⟩

theorem bitmap_of_width_four :
    Decodes flawless [97] zeroed (World.start fun _ => none) (.plain 4 2 (by decide) (by decide) (by decide))
      fun x y => ⟨UInt8.ofNat x, UInt8.ofNat y, 0⟩ :=
  (bitmap_decoded_iff flawless_readable (by decide) zeroed _ _).2 (.inl rfl) _

/-- The upper pixel gets the first byte of the padding and two of its own. -/
theorem bitmap_of_width_one_torn :
    ¬ Decodes flawless [97] zeroed (World.start fun _ => none) (.plain 1 2 (by decide) (by decide) (by decide))
      fun _ _ => ⟨1, 2, 3⟩ := by
  intro decodes
  have colour := (decodes_iff_colours flawless_readable (by decide) _ _ _ _).1 decodes 0 0 (by decide)
    (by decide)
  exact absurd colour (by decide)

end Lavoro.Screen
