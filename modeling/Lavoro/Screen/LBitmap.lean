import Lavoro.Lib.LittleEndian
import Lavoro.File.Reading
import Lavoro.Screen.LScreen

/-!
# Loading a bitmap (`lbitmap.hpp`)

`LBitmap(FileName)` reads two packed headers of 14 and 16 bytes, seeks to `BitmapOffset` and
reads three bytes for every cell, the rows from the last to the first. The cell `(x, y)` of
a `W` by `H` bitmap gets the bytes from `3 * ((H - 1 - y) * W + x)` on.
-/

namespace Lavoro.Screen
open Lib

variable {Node : Type} [DecidableEq Node]

/-- What the memory of the two headers and of the array holds before they are read. -/
structure Uninitialised where
  header : Buffer 14
  bitmapHeader : Buffer 16
  cells : Nat → BitVec 32

/-- A member of a packed header. -/
def field {n : Nat} (header : Buffer n) (offset width : Nat) : BitVec 32 :=
  BitVec.ofNat 32 (littleEndian ((List.range width).map fun i => header.get (offset + i)))

/-- The array, the file and the world while the pixels are read. -/
structure Decoding (Node : Type) where
  pixels : Pixels
  file : LFile Node
  world : World Node

namespace LBitmap

/-- `Buffer[k] = 0` and `Read(Buffer + k, 3)`, whose bytes are the low ones of the cell. -/
def readCell (fw : Firmware Node) (k : BitVec 32) (d : Decoding Node) : Decoding Node :=
  let x := LFile.read fw 3 (d.file, d.world)
  { pixels := d.pixels.put k.toNat (BitVec.ofNat 32 (littleEndian x.1))
    file := x.2.1
    world := x.2.2 }

/-- The inner loop, over `n` cells from `k` on. -/
def readRow (fw : Firmware Node) : Nat → BitVec 32 → Decoding Node → Decoding Node
  | 0, _, d => d
  | n + 1, k, d => readRow fw n (k + 1) (readCell fw k d)

/-- The outer loop, over the rows from `n - 1` down to 0. -/
def readRows (fw : Firmware Node) (w : BitVec 32) : Nat → Decoding Node → Decoding Node
  | 0, d => d
  | n + 1, d => readRows fw w n (readRow fw w.toNat (BitVec.ofNat 32 n * w) d)

/-- The turns of `for (int i = H - 1; i >= 0; --i)`. -/
def rows (h : BitVec 32) : Nat := ((h - 1).toInt + 1).toNat

/-- `LBitmap::LBitmap(FileName)`. -/
def construct (fw : Firmware Node) (fileName : Str16) (memory : Uninitialised) (world : World Node) :
    LScreen × World Node :=
  let bitmap := LFile.next fw (LFile.construct fw fileName false world)
  let x := LFile.read fw 14 bitmap
  let header := memory.header.store x.1
  let y := LFile.read fw 16 x.2
  let bitmapHeader := memory.bitmapHeader.store y.1
  let w := field bitmapHeader 4 4
  let h := field bitmapHeader 8 4
  let pixels := Pixels.alloc (w * h) memory.cells
  let bitmap := LFile.next fw (LFile.setPosition fw (field header 10 4).toNat y.2)
  let d := readRows fw w (rows h) { pixels, file := bitmap.1, world := bitmap.2 }
  ({ w, h, pixels := d.pixels }, LFile.destroy (d.file, d.world))

end LBitmap

/-- `H - 1` is read as an `int`. -/
theorem LBitmap.rows_cases (h : BitVec 32) : LBitmap.rows h = if h.toNat ≤ 2147483648 then h.toNat else 0 := by
  have below := h.isLt
  have before : (h - 1).toNat = (4294967295 + h.toNat) % 4294967296 := by
    rw [BitVec.toNat_sub]
    rfl
  unfold LBitmap.rows
  rw [BitVec.toInt_eq_toNat_cond, before]
  split <;> split <;> omega

/-- Every row is read of a height up to `2^31`. -/
theorem LBitmap.rows_eq {h : BitVec 32} (small : h.toNat ≤ 2147483648) : LBitmap.rows h = h.toNat := by
  rw [LBitmap.rows_cases, if_pos small]

/-- No row is read of a height above, which is negative. -/
theorem LBitmap.rows_eq_zero {h : BitVec 32} (large : 2147483648 < h.toNat) : LBitmap.rows h = 0 := by
  rw [LBitmap.rows_cases, if_neg (Nat.not_le_of_lt large)]

/-! ## What is left as it is -/

section Unwritten

variable {fw : Firmware Node} {file : Node → Option (List UInt8)}

omit [DecidableEq Node] in
theorem LBitmap.readRow_unwritten (n : Nat) : ∀ {k : BitVec 32} {d : Decoding Node},
    Unwritten file (d.file, d.world) →
      Unwritten file ((LBitmap.readRow fw n k d).file, (LBitmap.readRow fw n k d).world) := by
  induction n with
  | zero => exact fun h => h
  | succ n ih => exact fun h => ih (h.read fw 3)

omit [DecidableEq Node] in
theorem LBitmap.readRows_unwritten (columns : BitVec 32) (n : Nat) : ∀ {d : Decoding Node},
    Unwritten file (d.file, d.world) →
      Unwritten file ((LBitmap.readRows fw columns n d).file, (LBitmap.readRows fw columns n d).world) := by
  induction n with
  | zero => exact fun h => h
  | succ n ih => exact fun h => ih (LBitmap.readRow_unwritten columns.toNat h)

omit [DecidableEq Node] in
theorem LBitmap.readRows_file (columns : BitVec 32) (n : Nat) {pixels : Pixels} {bitmap : LFile Node × World Node}
    (h : Unwritten file bitmap) :
    (LBitmap.readRows fw columns n { pixels, file := bitmap.1, world := bitmap.2 }).world.file = file :=
  (LBitmap.readRows_unwritten columns n h).file

/-- Loading a bitmap writes no file. -/
theorem LBitmap.construct_file (fw : Firmware Node) (path : Str16) (headers : Uninitialised) (w : World Node) :
    (LBitmap.construct fw path headers w).2.file = w.file := by
  have opened : Unwritten w.file (LFile.construct fw path false w) := unwritten_construct path w
  have headersRead := ((opened.next fw).read fw 14).read fw 16
  unfold LBitmap.construct
  simp only [LFile.destroy]
  apply LBitmap.readRows_file
  apply Unwritten.next
  exact headersRead.setPosition fw _

end Unwritten

/-- The cell that gets the `j`-th three bytes of the pixel data. -/
def colourAt (data : List UInt8) (j : Nat) : BitVec 32 :=
  BitVec.ofNat 32 (littleEndian ((data.drop (3 * j)).take 3))

/-- The 32-bit word at an offset of a file. -/
def wordAt (content : List UInt8) (offset : Nat) : BitVec 32 :=
  BitVec.ofNat 32 (littleEndian ((content.drop offset).take 4))

section Rows

variable {fw : Firmware Node} {n : Node} {c l : List UInt8} {d : Decoding Node}

theorem colourAt_drop (l : List UInt8) (i j : Nat) : colourAt (l.drop (3 * i)) j = colourAt l (i + j) := by
  rw [colourAt, colourAt, List.drop_drop, Nat.mul_add]

omit [DecidableEq Node] in
/-- **One row.** -/
theorem readRow_spec {m : Nat} {k : BitVec 32} (h : Reads fw n c l (d.file, d.world))
    (inside : k.toNat + m ≤ d.pixels.size) (small : d.pixels.size < 4294967296) :
    Reads fw n c (l.drop (3 * m)) ((LBitmap.readRow fw m k d).file, (LBitmap.readRow fw m k d).world) ∧
      (LBitmap.readRow fw m k d).pixels = d.pixels.fill k.toNat m (colourAt l) := by
  induction m generalizing k d l with
  | zero => exact ⟨h, (Pixels.fill_zero _ _ _).symm⟩
  | succ m ih =>
    obtain ⟨bytes, rest⟩ := h.read 3
    have here : k.toNat < d.pixels.size := by omega
    have pixels : (LBitmap.readCell fw k d).pixels = d.pixels.put k.toNat (colourAt l 0) := by
      unfold LBitmap.readCell
      simp only [bytes]
      rfl
    have size : (LBitmap.readCell fw k d).pixels.size = d.pixels.size := by
      rw [pixels, Pixels.put, if_pos here]
    have next : (k + 1).toNat = k.toNat + 1 := by
      rw [BitVec.toNat_add]
      exact Nat.mod_eq_of_lt (show k.toNat + 1 < 4294967296 by omega)
    obtain ⟨rest', row⟩ := ih (k := k + 1) (d := LBitmap.readCell fw k d) rest (by omega) (by omega)
    have colours : colourAt (l.drop 3) = fun j => colourAt l (j + 1) := by
      funext j
      rw [Nat.add_comm j 1]
      exact colourAt_drop l 1 j
    refine ⟨?_, ?_⟩
    · rw [List.drop_drop, show 3 + 3 * m = 3 * (m + 1) by omega] at rest'
      exact rest'
    · show (LBitmap.readRow fw m (k + 1) (LBitmap.readCell fw k d)).pixels = _
      rw [row, next, pixels, colours]
      exact Pixels.fill_succ m (colourAt l) here

omit [DecidableEq Node] in
/-- **All rows**: the last row of the array gets the first bytes. -/
theorem readRows_spec {m : Nat} {w : BitVec 32} (h : Reads fw n c l (d.file, d.world))
    (inside : m * w.toNat ≤ d.pixels.size) (small : d.pixels.size < 2147483648) :
    (LBitmap.readRows fw w m d).pixels.outside = d.pixels.outside ∧
      (∀ i, m * w.toNat ≤ i → (LBitmap.readRows fw w m d).pixels.cells i = d.pixels.cells i) ∧
      ∀ x y, x < w.toNat → y < m →
        (LBitmap.readRows fw w m d).pixels.cells (y * w.toNat + x) =
          colourAt l ((m - 1 - y) * w.toNat + x) := by
  induction m generalizing d l with
  | zero => exact ⟨rfl, fun _ _ => rfl, nofun⟩
  | succ m ih =>
    rw [Nat.succ_mul] at inside
    have start : (BitVec.ofNat 32 m * w).toNat = m * w.toNat := by
      rw [BitVec.toNat_mul, BitVec.toNat_ofNat, Nat.mod_mul_mod]
      exact Nat.mod_eq_of_lt (show m * w.toNat < 4294967296 by omega)
    obtain ⟨rest, row⟩ := readRow_spec (m := w.toNat) (k := BitVec.ofNat 32 m * w) h
      (by rw [start]; exact inside) (by omega)
    rw [start] at row
    let e := LBitmap.readRow fw w.toNat (BitVec.ofNat 32 m * w) d
    have filled : e.pixels = d.pixels.fill (m * w.toNat) w.toNat (colourAt l) := row
    have size : e.pixels.size = d.pixels.size := by
      rw [filled]
      rfl
    obtain ⟨outside, above, below⟩ := ih (d := e) rest (by omega) (by omega)
    refine ⟨outside.trans (by rw [filled]; rfl), fun i far => ?_, fun x y left up => ?_⟩
    · rw [Nat.succ_mul] at far
      apply (above i (by omega)).trans
      rw [filled]
      exact if_neg (by omega)
    · rcases Nat.lt_or_eq_of_le (Nat.le_of_lt_succ up) with lower | rfl
      · apply (below x y left lower).trans
        rw [colourAt_drop, ← Nat.add_assoc, show m + 1 - 1 - y = (m - 1 - y) + 1 by omega, Nat.succ_mul,
          Nat.add_comm w.toNat]
      · apply (above _ (Nat.le_add_right _ _)).trans
        rw [filled, Nat.add_sub_cancel, Nat.sub_self, Nat.zero_mul, Nat.zero_add]
        refine (if_pos ⟨Nat.le_add_right _ _, by omega⟩).trans ?_
        rw [Nat.add_sub_cancel_left]

end Rows

section Load

variable {fw : Firmware Node} {fileName : Str16} {world : World Node} {c : List UInt8}

/-- A member of a header that has been read. -/
theorem field_store {n : Nat} (header : Buffer n) {bytes : List UInt8} (offset : Nat)
    (read : offset + 4 ≤ bytes.length) (room : bytes.length ≤ n) :
    field (header.store bytes) offset 4 = wordAt bytes offset := by
  have same : (List.range 4).map (fun i => (header.store bytes).get (offset + i)) =
      (bytes.drop offset).take 4 := by
    apply List.ext_getElem
    · rw [List.length_map, List.length_range, List.length_take, List.length_drop]
      omega
    · intro i left right
      rw [List.length_map, List.length_range] at left
      simp only [List.getElem_map, List.getElem_range, List.getElem_take, List.getElem_drop]
      exact Buffer.get_store_of_lt (by omega) room
  rw [field, same, wordAt]

theorem wordAt_slice (c : List UInt8) (start length : Nat) {offset : Nat} (inside : offset + 4 ≤ length) :
    wordAt ((c.drop start).take length) offset = wordAt c (start + offset) := by
  rw [wordAt, wordAt, List.drop_take, List.take_take, List.drop_drop, Nat.min_eq_left (by omega)]

/-- What the three header members are that the loading uses. -/
structure HeaderOf (c : List UInt8) (offset w h : Nat) : Prop where
  headers : 30 < c.length
  small : c.length < 4294967296
  start : (wordAt c 10).toNat = offset
  inside : offset ≤ c.length
  width : (wordAt c 18).toNat = w
  height : (wordAt c 22).toNat = h
  wide : 1 ≤ w
  size : w * h < 2147483648

section Header

variable {offset w h : Nat}

/-- `Header.BitmapOffset`, read at the start of the file. -/
theorem HeaderOf.field_header (H : HeaderOf c offset w h) (header : Buffer 14) :
    field (header.store (c.take 14)) 10 4 = wordAt c 10 := by
  have headers := H.headers
  rw [field_store _ _ (by rw [List.length_take]; omega) (List.length_take_le 14 c)]
  exact wordAt_slice c 0 14 (by decide)

/-- A member of `BitmapHeader`, read behind it. -/
theorem HeaderOf.field_bitmapHeader (H : HeaderOf c offset w h) (header : Buffer 16) {o : Nat}
    (inside : o + 4 ≤ 16) :
    field (header.store ((c.drop 14).take 16)) o 4 = wordAt c (14 + o) := by
  have headers := H.headers
  rw [field_store _ _ (by rw [List.length_take, List.length_drop]; omega) (List.length_take_le 16 _)]
  exact wordAt_slice c 14 16 inside

theorem HeaderOf.rows (H : HeaderOf c offset w h) : LBitmap.rows (wordAt c 22) = h := by
  have tall : h < 2147483648 := Nat.lt_of_le_of_lt (Nat.le_mul_of_pos_left h H.wide) H.size
  rw [LBitmap.rows_eq (by rw [H.height]; omega), H.height]

theorem HeaderOf.cells (H : HeaderOf c offset w h) :
    (wordAt c 18 * wordAt c 22).toInt.toNat = w * h := by
  have size := H.size
  have product : (wordAt c 18 * wordAt c 22).toNat = w * h := by
    rw [BitVec.toNat_mul, H.width, H.height]
    exact Nat.mod_eq_of_lt (show w * h < 4294967296 by omega)
  rw [BitVec.toInt_eq_toNat_of_lt (by rw [product]; omega), product]
  rfl

/-- More than the headers is left behind them. -/
theorem HeaderOf.more (H : HeaderOf c offset w h) : (c.drop 14).drop 16 ≠ [] := by
  have headers := H.headers
  rw [List.drop_drop, ← List.length_pos_iff, List.length_drop]
  omega

theorem ofNat_eq_of_toNat_eq {x : BitVec 32} {n : Nat} (value : x.toNat = n) : BitVec.ofNat 32 n = x := by
  rw [← value, BitVec.ofNat_toNat, BitVec.setWidth_eq]

end Header

/-- **Loading** a file with such headers. -/
theorem construct_spec (well : Readable fw) (named : fileName ≠ []) (memory : Uninitialised)
    (there : world.file (fw.nodeOf fileName) = some c) {offset w h : Nat} (H : HeaderOf c offset w h) :
    ∃ pixels,
      (LBitmap.construct fw fileName memory world).1 = ⟨BitVec.ofNat 32 w, BitVec.ofNat 32 h, pixels⟩ ∧
      pixels.outside = false ∧
      ∀ x y, x < w → y < h →
        pixels.cells (y * w + x) = colourAt (c.drop offset) ((h - 1 - y) * w + x) := by
  have opened := open_reads well named there
  obtain ⟨bytes, reads⟩ := opened.read 14
  obtain ⟨bytes', reads'⟩ := reads.read 16
  have small := H.small
  have sought := reads'.seek well H.more H.inside (by omega)
  let pixels := Pixels.alloc (wordAt c 18 * wordAt c 22) memory.cells
  have size : pixels.size = w * h := H.cells
  have inArray : h * (wordAt c 18).toNat ≤ pixels.size := by
    rw [size, H.width]
    exact Nat.le_of_eq (Nat.mul_comm h w)
  obtain ⟨outside, -, read⟩ := readRows_spec (m := h) (w := wordAt c 18)
    (d := ⟨pixels, _, _⟩) sought inArray (size ▸ H.size)
  rw [H.width] at read
  refine ⟨_, ?_, outside, read⟩
  unfold LBitmap.construct
  simp only [bytes, bytes', H.field_header, H.field_bitmapHeader _ (show 4 + 4 ≤ 16 by decide),
    H.field_bitmapHeader _ (show 8 + 4 ≤ 16 by decide), H.rows, H.start, ofNat_eq_of_toNat_eq H.width,
    ofNat_eq_of_toNat_eq H.height]
  rfl

end Load

end Lavoro.Screen
