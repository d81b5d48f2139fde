import Lavoro.Lib.Loop
import Lavoro.Screen.Bmp

/-!
# The array of a bitmap (`lbitmap.hpp`)

`Width` and `Height` are whatever the file holds. The array has `W * H` cells, computed in 32 bits, and
the loops over the rows write `W` cells for each of `H` rows. The results say that the loops end, and for
which headers every cell written is one of the array.
-/

namespace Lavoro.Screen
open Lib

variable {Node : Type} [DecidableEq Node]

namespace LBitmap

/-- `Width` and `Height` as they are read; what the file is too short for is left of the memory. -/
def extents (fw : Firmware Node) (fileName : Str16) (memory : Uninitialised) (world : World Node) :
    BitVec 32 × BitVec 32 :=
  let x := LFile.read fw 14 (LFile.next fw (LFile.construct fw fileName false world))
  let bitmapHeader := memory.bitmapHeader.store (LFile.read fw 16 x.2).1
  (field bitmapHeader 4 4, field bitmapHeader 8 4)

/-- One turn of `for (unsigned j = 0; j < W; ++j, ++k)`. -/
def cellTurn (fw : Firmware Node) (w : BitVec 32) (s : (BitVec 32 × BitVec 32) × Decoding Node) :
    Turn ((BitVec 32 × BitVec 32) × Decoding Node) (Decoding Node) :=
  if s.1.1.ult w then .again ((s.1.1 + 1, s.1.2 + 1), readCell fw s.1.2 s.2) else .leave s.2

/-- One turn of `for (int i = H - 1; i >= 0; --i)`, over the row's cells. -/
def rowTurn (fw : Firmware Node) (w : BitVec 32) (s : BitVec 32 × Decoding Node) :
    Turn (BitVec 32 × Decoding Node) (Decoding Node) :=
  if (0#32).sle s.1 then .again (s.1 - 1, readRow fw w.toNat (s.1 * w) s.2) else .leave s.2

section Loops

variable {fw : Firmware Node} {w : BitVec 32}

omit [DecidableEq Node] in
/-- The inner loop ends, `n` cells before its end. -/
theorem cellTurn_leaves (n : Nat) (j k : BitVec 32) (d : Decoding Node) (left : j.toNat + n = w.toNat) :
    Loop.Leaves (cellTurn fw w) ((j, k), d) (readRow fw n k d) := by
  induction n generalizing j k d with
  | zero =>
    have past : ¬ j.ult w = true := by
      rw [BitVec.ult_iff_lt, BitVec.lt_def]
      omega
    have turn : cellTurn fw w ((j, k), d) = .leave d := if_neg past
    exact (Loop.leaves_leave turn).2 rfl
  | succ n ih =>
    have below := w.isLt
    have inside : j.ult w = true := by
      rw [BitVec.ult_iff_lt, BitVec.lt_def]
      omega
    have next : (j + 1).toNat = j.toNat + 1 := by
      rw [BitVec.toNat_add]
      exact Nat.mod_eq_of_lt (show j.toNat + 1 < 4294967296 by omega)
    have turn : cellTurn fw w ((j, k), d) = .again ((j + 1, k + 1), readCell fw k d) := if_pos inside
    apply (Loop.leaves_again turn).2
    exact ih (j + 1) (k + 1) _ (by omega)

omit [DecidableEq Node] in
/-- The outer loop ends, `n` rows before its end. -/
theorem rowTurn_leaves (n : Nat) (d : Decoding Node) (small : n ≤ 2147483648) :
    Loop.Leaves (rowTurn fw w) (BitVec.ofNat 32 n - 1, d) (readRows fw w n d) := by
  induction n generalizing d with
  | zero =>
    have turn : rowTurn fw w (BitVec.ofNat 32 0 - 1, d) = .leave d := rfl
    exact (Loop.leaves_leave turn).2 rfl
  | succ n ih =>
    have row : BitVec.ofNat 32 (n + 1) - 1 = BitVec.ofNat 32 n := by
      rw [BitVec.ofNat_add]
      exact BitVec.add_sub_cancel _ _
    have going : (0#32).sle (BitVec.ofNat 32 n) = true := by
      rw [BitVec.sle_iff_toInt_le, toInt_word (n := n) (by omega)]
      exact Int.natCast_nonneg n
    have turn : rowTurn fw w (BitVec.ofNat 32 n, d) =
        .again (BitVec.ofNat 32 n - 1, readRow fw w.toNat (BitVec.ofNat 32 n * w) d) := if_pos going
    rw [row]
    apply (Loop.leaves_again turn).2
    exact ih _ (by omega)

omit [DecidableEq Node] in
/-- **The loops end** for every width and every height. -/
theorem rows_leaves (fw : Firmware Node) (w h : BitVec 32) (d : Decoding Node) :
    Loop.Leaves (rowTurn fw w) (h - 1, d) (readRows fw w (rows h) d) := by
  rcases Nat.lt_or_ge 2147483648 h.toNat with large | small
  · rw [rows_eq_zero large]
    have below := h.isLt
    have past : ¬ (0#32).sle (h - 1) = true := by
      have before : (h - 1).toNat = (4294967295 + h.toNat) % 4294967296 := by
        rw [BitVec.toNat_sub]
        rfl
      rw [BitVec.sle_iff_toInt_le, BitVec.toInt_zero, BitVec.toInt_eq_toNat_cond, before]
      split <;> omega
    have turn : rowTurn fw w (h - 1, d) = .leave d := if_neg past
    exact (Loop.leaves_leave turn).2 rfl
  · have loop : Loop.Leaves (rowTurn fw w) (BitVec.ofNat 32 h.toNat - 1, d) (readRows fw w h.toNat d) :=
      rowTurn_leaves h.toNat d small
    rwa [BitVec.ofNat_toNat, BitVec.setWidth_eq, ← rows_eq small] at loop

end Loops

section Bounds

variable {fw : Firmware Node} {d : Decoding Node}

theorem put_outside (p : Pixels) (k : Nat) (value : BitVec 32) :
    (p.put k value).outside = false ↔ p.outside = false ∧ k < p.size := by
  unfold Pixels.put
  split <;> simp_all

@[simp] theorem put_size (p : Pixels) (k : Nat) (value : BitVec 32) : (p.put k value).size = p.size := by
  unfold Pixels.put
  split <;> rfl

omit [DecidableEq Node] in
/-- The cells that a row writes. -/
theorem readRow_outside (fw : Firmware Node) (n : Nat) (k : BitVec 32) (d : Decoding Node) :
    (readRow fw n k d).pixels.size = d.pixels.size ∧
      ((readRow fw n k d).pixels.outside = false ↔
        d.pixels.outside = false ∧ ∀ j < n, (k + BitVec.ofNat 32 j).toNat < d.pixels.size) := by
  induction n generalizing k d with
  | zero => exact ⟨rfl, (and_iff_left (fun j lt => absurd lt (Nat.not_lt_zero j))).symm⟩
  | succ n ih =>
    obtain ⟨size, outside⟩ := ih (k + 1) (readCell fw k d)
    have kept : (readCell fw k d).pixels.size = d.pixels.size := put_size _ _ _
    have first : (readCell fw k d).pixels.outside = false ↔ d.pixels.outside = false ∧ k.toNat < d.pixels.size :=
      put_outside _ _ _
    have shift (j : Nat) : k + 1 + BitVec.ofNat 32 j = k + BitVec.ofNat 32 (j + 1) := by
      rw [BitVec.add_assoc, Nat.add_comm j 1, BitVec.ofNat_add]
      rfl
    have start : k + BitVec.ofNat 32 0 = k := BitVec.add_zero k
    refine ⟨size.trans kept, ?_⟩
    rw [readRow, outside, first, kept, and_assoc]
    refine and_congr_right fun _ => ⟨?_, ?_⟩
    · rintro ⟨here, later⟩ j lt
      cases j with
      | zero => rwa [start]
      | succ j =>
        rw [← shift]
        exact later j (by omega)
    · intro all
      refine ⟨?_, fun j lt => ?_⟩
      · have here := all 0 (Nat.succ_pos n)
        rwa [start] at here
      · rw [shift]
        exact all (j + 1) (by omega)

omit [DecidableEq Node] in
/-- The cells that all rows write: every number below `n * W`, modulo `2^32`. -/
theorem readRows_outside (w : BitVec 32) (n : Nat) (d : Decoding Node) :
    (readRows fw w n d).pixels.outside = false ↔
      d.pixels.outside = false ∧ ∀ t < n * w.toNat, t % 4294967296 < d.pixels.size := by
  induction n generalizing d with
  | zero =>
    rw [Nat.zero_mul]
    exact (and_iff_left (fun t lt => absurd lt (Nat.not_lt_zero t))).symm
  | succ n ih =>
    obtain ⟨size, row⟩ := readRow_outside fw w.toNat (BitVec.ofNat 32 n * w) d
    have index (j : Nat) : (BitVec.ofNat 32 n * w + BitVec.ofNat 32 j).toNat = (n * w.toNat + j) % 4294967296 := by
      rw [BitVec.toNat_add, BitVec.toNat_mul, BitVec.toNat_ofNat, BitVec.toNat_ofNat, Nat.mod_mul_mod,
        ← Nat.add_mod]
    rw [readRows, ih, size, row, and_assoc, Nat.succ_mul]
    refine and_congr_right fun _ => ⟨?_, ?_⟩
    · rintro ⟨last, others⟩ t lt
      rcases Nat.lt_or_ge t (n * w.toNat) with before | behind
      · exact others t before
      · have cell := last (t - n * w.toNat) (by omega)
        rwa [index, Nat.add_sub_cancel' behind] at cell
    · intro all
      refine ⟨fun j lt => ?_, fun t lt => all t (by omega)⟩
      rw [index]
      exact all _ (by omega)

omit [DecidableEq Node] in
/-- The size of the array stays. -/
theorem readRows_size (w : BitVec 32) (n : Nat) (d : Decoding Node) :
    (readRows fw w n d).pixels.size = d.pixels.size := by
  induction n generalizing d with
  | zero => rfl
  | succ n ih => exact (ih _).trans (readRow_outside fw w.toNat (BitVec.ofNat 32 n * w) d).1

/-- The array that the rows are read into. -/
theorem construct_pixels (fw : Firmware Node) (fileName : Str16) (memory : Uninitialised) (world : World Node) :
    ∃ file world',
      (construct fw fileName memory world).1.pixels =
        (readRows fw (extents fw fileName memory world).1 (rows (extents fw fileName memory world).2)
          ⟨.alloc ((extents fw fileName memory world).1 * (extents fw fileName memory world).2) memory.cells,
            file, world'⟩).pixels := by
  unfold construct extents
  dsimp only
  exact ⟨_, _, rfl⟩

/-- **Which headers keep to the array.** The loops over the rows end whatever the headers hold, and
they write only cells of the array that is allocated, exactly if the height is zero or negative (as an
`int`) or the product of the width and the height has 31 bits. -/
theorem load_inside_iff (fw : Firmware Node) (fileName : Str16) (memory : Uninitialised) (world : World Node) :
    let W := (extents fw fileName memory world).1
    let H := (extents fw fileName memory world).2
    (∀ i d, Loop.Leaves (cellTurn fw W) ((0, i * W), d) (readRow fw W.toNat (i * W) d)) ∧
    (∀ d, Loop.Leaves (rowTurn fw W) (H - 1, d) (readRows fw W (rows H) d)) ∧
    (((W * H).msb = false → (construct fw fileName memory world).1.pixels.outside = false) ↔
      ((W * H).msb = false → H.toNat = 0 ∨ 2147483648 < H.toNat ∨ W.toNat * H.toNat < 2147483648)) := by
  obtain ⟨file, world', loaded⟩ := construct_pixels fw fileName memory world
  generalize extents fw fileName memory world = read at loaded ⊢
  obtain ⟨W, H⟩ := read
  dsimp only at loaded ⊢
  refine ⟨fun i d => cellTurn_leaves W.toNat 0 (i * W) d (Nat.zero_add _), fun d => rows_leaves fw W H d, ?_⟩
  refine imp_congr_right fun allocated => ?_
  have written : (construct fw fileName memory world).1.pixels.outside = false ↔
      ∀ t < rows H * W.toNat, t % 4294967296 < (W * H).toInt.toNat := by
    rw [loaded, readRows_outside]
    exact and_iff_right rfl
  have area : (W * H).toInt.toNat = W.toNat * H.toNat % 4294967296 := by
    rw [BitVec.toInt_eq_toNat_of_msb allocated, Int.toNat_natCast, BitVec.toNat_mul]
  have half : W.toNat * H.toNat % 4294967296 < 2147483648 := by
    rw [BitVec.msb_eq_false_iff_two_mul_lt, BitVec.toNat_mul] at allocated
    omega
  rw [written, area]
  rcases Nat.lt_or_ge 2147483648 H.toNat with large | small
  · rw [rows_eq_zero large, Nat.zero_mul]
    exact iff_of_true (fun t lt => absurd lt (Nat.not_lt_zero t)) (.inr (.inl large))
  · rw [rows_eq small, Nat.mul_comm H.toNat]
    constructor
    · intro inside
      refine .inr (.inr ?_)
      -- otherwise the product is at least `2^32`, and the cell behind the array is written
      rcases Nat.lt_or_ge (W.toNat * H.toNat) 2147483648 with fits | exceeds
      · exact fits
      · have behind := inside (W.toNat * H.toNat % 4294967296) (by omega)
        omega
    · rintro (none | negative | fits) t lt
      · rw [none, Nat.mul_zero] at lt
        omega
      · omega
      · omega

/-- Both members come from a file that is long enough. -/
theorem extents_eq {fileName : Str16} {world : World Node} {c : List UInt8} (well : Readable fw)
    (named : fileName ≠ []) (memory : Uninitialised) (there : world.file (fw.nodeOf fileName) = some c)
    (headers : 30 ≤ c.length) : extents fw fileName memory world = (wordAt c 18, wordAt c 22) := by
  obtain ⟨-, reads⟩ := (open_reads well named there).read 14
  obtain ⟨bytes, -⟩ := reads.read 16
  have member (o : Nat) (inside : o + 4 ≤ 16) :
      field (memory.bitmapHeader.store ((c.drop 14).take 16)) o 4 = wordAt c (14 + o) := by
    rw [field_store _ _ (by rw [List.length_take, List.length_drop]; omega) (List.length_take_le 16 _)]
    exact wordAt_slice c 14 16 inside
  unfold extents
  simp only [bytes, member 4 (by decide), member 8 (by decide)]

end Bounds

end LBitmap

/-- A file of 30 bytes whose header announces 65536 by 65536 pixels. -/
def hugeHeader : List UInt8 :=
  List.replicate 18 0 ++ [0, 0, 1, 0, 0, 0, 1, 0] ++ List.replicate 4 0

/-- The array gets no cell, and is written. -/
theorem load_outside_empty_array :
    let world := (World.start fun _ => none).setFile (flawless.nodeOf [97]) (some hugeHeader)
    LBitmap.extents flawless [97] zeroed world = (65536, 65536) ∧
      (65536 * 65536 : BitVec 32) = 0 ∧
      (LBitmap.construct flawless [97] zeroed world).1.pixels.outside = true := by
  intro world
  have read : LBitmap.extents flawless [97] zeroed world = (65536, 65536) :=
    LBitmap.extents_eq flawless_readable (by decide) zeroed (World.setFile_file_same _ _ _) (by decide)
  obtain ⟨file, world', loaded⟩ := LBitmap.construct_pixels flawless [97] zeroed world
  rw [read] at loaded
  refine ⟨read, rfl, ?_⟩
  rw [loaded, ← Bool.not_eq_false, LBitmap.readRows_outside]
  rintro ⟨-, inside⟩
  exact absurd (inside 0 (by decide)) (Nat.lt_irrefl 0)

end Lavoro.Screen
