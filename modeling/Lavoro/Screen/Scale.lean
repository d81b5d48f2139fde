import Lavoro.Lib.Sampling
import Lavoro.Lib.Scatter
import Lavoro.Screen.Mask

/-!
# Scaling a screen (`LScreen::Scale`)

`Scale` makes a screen whose sizes are rounded up, and puts every pixel of the source at its scaled
coordinates, which are rounded up as well; of a screen with a mask it puts `EmptyColor` everywhere first
and then only the other pixels. A column can be rounded up to the width of the new screen: its pixels
come to lie in the first column of the next row.
-/

namespace Lavoro.Screen
open Lib LScreen

/-- `LScreen::LScreen(X, Y, W, H)`, of which `memory` is what the array holds before it is cleared. -/
def LScreen.construct (memory : Nat → BitVec 32) (w h : BitVec 32) : LScreen where
  w
  h
  pixels := (List.range (w * h).toNat).foldl (fun p i => p.put i 0) (Pixels.alloc (w * h) memory)

/-- `Fill(Color)`. -/
def LScreen.fill (s : LScreen) (color : BitVec 32) : LScreen :=
  { s with pixels := (List.range (s.w * s.h).toNat).foldl (fun p i => p.put i color) s.pixels }

/-- `(W * Ratio + 100 - 1) / 100`, as an `int`. -/
def scaledSize (n ratio : BitVec 32) : BitVec 32 := (n * ratio + 100 - 1).sdiv 100

/-- `(j * Ratio + 100 - 1) / 100`, unsigned. -/
def scaledIndex (j ratio : BitVec 32) : BitVec 32 := (j * ratio + 100 - 1) / 100

namespace MaskedScreen

/-- The body of the first two loops of `Scale`. -/
def fillPixel (s : MaskedScreen) (ratio : BitVec 32) (i : Nat) (result : LScreen) (j : Nat) : LScreen :=
  if s.hasMask then
    result.setBuffer (scaledIndex (BitVec.ofNat 32 j) ratio) (scaledIndex (BitVec.ofNat 32 i) ratio) s.emptyColor
  else result

/-- The body of the others. -/
def copyPixel (s : MaskedScreen) (ratio : BitVec 32) (i : Nat) (result : LScreen) (j : Nat) : LScreen :=
  match s.getBuffer (BitVec.ofNat 32 j) (BitVec.ofNat 32 i) with
  | some value =>
    if value ≠ s.emptyColor ∨ !s.hasMask then
      result.setBuffer (scaledIndex (BitVec.ofNat 32 j) ratio) (scaledIndex (BitVec.ofNat 32 i) ratio) value
    else result
  | none => { result with pixels := result.pixels.trap }

/-- `for (i < H) for (j < W)` over the pixels of the source. -/
def overPixels (s : MaskedScreen) (body : Nat → LScreen → Nat → LScreen) (result : LScreen) : LScreen :=
  (List.range s.h.toNat).foldl (fun result i => (List.range s.w.toNat).foldl (body i) result) result

/-- `Scale(Ratio)`. -/
def scale (memory : Nat → BitVec 32) (s : MaskedScreen) (ratio : BitVec 32) : MaskedScreen where
  toLScreen := s.overPixels (s.copyPixel ratio) (s.overPixels (s.fillPixel ratio)
    (LScreen.construct memory (scaledSize s.w ratio) (scaledSize s.h ratio)))
  x := s.x
  y := s.y
  emptyColor := s.emptyColor
  hasMask := s.hasMask

end MaskedScreen

/-! ## The arithmetic -/

section Arithmetic

variable {n r : Nat}

theorem scaled_numerator (small : n * r + 99 < 4294967296) :
    (BitVec.ofNat 32 n * BitVec.ofNat 32 r + 100 - 1).toNat = n * r + 99 := by
  have sum : BitVec.ofNat 32 n * BitVec.ofNat 32 r + 100 - 1 = BitVec.ofNat 32 (n * r + 99) := by
    rw [BitVec.ofNat_add, BitVec.ofNat_mul]
    grind
  rw [sum, BitVec.toNat_ofNat]
  exact Nat.mod_eq_of_lt small

/-- A coordinate is rounded up. -/
theorem scaledIndex_eq (small : n * r + 99 < 4294967296) :
    scaledIndex (BitVec.ofNat 32 n) (BitVec.ofNat 32 r) = BitVec.ofNat 32 (place r 100 n) := by
  apply BitVec.eq_of_toNat_eq
  rw [scaledIndex, BitVec.toNat_udiv, scaled_numerator small, BitVec.toNat_ofNat]
  have value : place r 100 n = (n * r + 99) / 100 := rfl
  rw [value, Nat.mod_eq_of_lt (show (n * r + 99) / 100 < 4294967296 by omega)]
  rfl

/-- So is a size, as long as it is computed without an overflow. -/
theorem scaledSize_eq (small : n * r + 99 < 2147483648) :
    scaledSize (BitVec.ofNat 32 n) (BitVec.ofNat 32 r) = BitVec.ofNat 32 (place r 100 n) := by
  have numerator := scaled_numerator (show n * r + 99 < 4294967296 by omega)
  have positive : (BitVec.ofNat 32 n * BitVec.ofNat 32 r + 100 - 1).msb = false := by
    rw [BitVec.msb_eq_false_iff_two_mul_lt, numerator]
    omega
  have unsigned : scaledSize (BitVec.ofNat 32 n) (BitVec.ofNat 32 r) =
      scaledIndex (BitVec.ofNat 32 n) (BitVec.ofNat 32 r) := by
    rw [scaledSize, BitVec.sdiv_eq, positive]
    rfl
  rw [unsigned, scaledIndex_eq (by omega)]

end Arithmetic

/-! ## The new screen -/

namespace LScreen

/-- The cells of an array, one after the other. -/
theorem foldl_put (n : Nat) (cells : Nat → BitVec 32) (color : BitVec 32) :
    (List.range n).foldl (fun p i => p.put i color) (Pixels.mk n cells false) =
      ⟨n, fun c => if c < n then color else cells c, false⟩ := by
  let Inv (k : Nat) (p : Pixels) : Prop := p = ⟨n, fun c => if c < k then color else cells c, false⟩
  have turn : ∀ k p, k < n → Inv k p → Inv (k + 1) (p.put k color) := by
    rintro k p lt rfl
    show Pixels.put _ k color = _
    rw [Pixels.put, if_pos lt]
    congr 1
    funext c
    dsimp only
    by_cases here : c = k
    · rw [if_pos here, if_pos (by omega)]
    · rw [if_neg here]
      by_cases before : c < k
      · rw [if_pos before, if_pos (by omega)]
      · rw [if_neg before, if_neg (by omega)]
  have start : Inv 0 ⟨n, cells, false⟩ := by
    show _ = _
    simp
  exact Loop.foldl_range turn start

theorem area_word (w h : Nat) : BitVec.ofNat 32 w * BitVec.ofNat 32 h = BitVec.ofNat 32 (w * h) := by
  rw [BitVec.ofNat_mul]

/-- The array is cleared. -/
theorem construct_eq (memory : Nat → BitVec 32) (e : Extent) :
    construct memory (BitVec.ofNat 32 e.w) (BitVec.ofNat 32 e.h) =
      ofCells e fun c => if c < e.w * e.h then 0 else memory c := by
  have new : Pixels.alloc (BitVec.ofNat 32 (e.w * e.h)) memory = ⟨e.w * e.h, memory, false⟩ := by
    rw [Pixels.alloc, toInt_word e.area, Int.toNat_natCast]
  rw [construct, area_word, toNat_word e.area, new, foldl_put]
  rfl

/-- Every cell gets the colour. -/
theorem fill_eq {e : Extent} {s : LScreen} (has : s.Has e) (color : BitVec 32) :
    s.fill color = s.withCells fun c => if c < e.w * e.h then color else s.pixels.cells c := by
  obtain ⟨w, h, size, cells, outside⟩ := s
  obtain ⟨rfl, rfl, rfl, rfl⟩ := has
  rw [fill, area_word, toNat_word e.area, foldl_put]
  rfl

/-- `SetBuffer` at a point with an index that is not negative. -/
theorem setBuffer_at {e : Extent} {s : LScreen} (has : s.Has e) {x y : Nat} (v : BitVec 32)
    (small : y * e.w + x < 2147483648) :
    s.setBuffer (BitVec.ofNat 32 x) (BitVec.ofNat 32 y) v =
      s.withCells (scatterOne (e.w * e.h) s.pixels.cells (y * e.w + x, v)) := by
  have origin : (base e 0 0).toNat = 0 := by
    simp [base]
  have stored := setBuffer_positive (x := 0) (y := 0) (i := y) (j := x) has v (by rw [origin]; omega)
  rw [origin, Nat.zero_add] at stored
  have point (b : BitVec 32) : 0 + b = b := BitVec.zero_add b
  rw [point, point] at stored
  rw [stored]
  congr 1
  funext c
  have one : y * e.w + x ≤ c ∧ c < y * e.w + x + 1 ∧ c < e.w * e.h ↔ c = y * e.w + x ∧ c < e.w * e.h := by omega
  simp only [putRow, scatterOne, one]

end LScreen

/-- The sizes of the scaled screen are computed without an overflow, and its array can be made. -/
structure Extent.Scales (e : Extent) (r : Nat) : Prop where
  wide : e.w * r + 99 < 2147483648
  high : e.h * r + 99 < 2147483648
  area : place r 100 e.w * place r 100 e.h < 2147483648

section Scales

variable {e : Extent} {r : Nat}

theorem place_small {n : Nat} (small : n * r + 99 < 2147483648) : place r 100 n < 2147483648 := by
  have value : place r 100 n = (n * r + 99) / 100 := rfl
  rw [value]
  omega

/-- A smaller screen can always be made. -/
theorem Extent.Scales.of_le (shrinks : r ≤ 100) (wide : e.w * r + 99 < 2147483648)
    (high : e.h * r + 99 < 2147483648) : e.Scales r where
  wide
  high
  area := Nat.lt_of_le_of_lt
    (Nat.mul_le_mul (place_le (by decide) shrinks e.w) (place_le (by decide) shrinks e.h)) e.area

/-- The size of the scaled screen. -/
def Extent.scaled (e : Extent) (r : Nat) (scales : e.Scales r) : Extent where
  w := place r 100 e.w
  h := place r 100 e.h
  width := place_small scales.wide
  height := place_small scales.high
  area := scales.area

/-- The index of the cell that a pixel of the source comes to lie in. -/
def scaledCell (e : Extent) (r i j : Nat) : Nat := place r 100 i * place r 100 e.w + place r 100 j

/-- No index is negative. -/
theorem scaledCell_small (scales : e.Scales r) {i j : Nat} (row : i < e.h) (column : j < e.w) :
    scaledCell e r i j < 2147483648 := by
  have hundred : 0 < 100 := by decide
  unfold scaledCell
  rcases Nat.le_total r 100 with shrinks | grows
  · -- the pixel was not before its new cell
    have up := place_le hundred shrinks i
    have left := place_le hundred shrinks j
    have narrow := place_le hundred shrinks e.w
    calc place r 100 i * place r 100 e.w + place r 100 j ≤ i * e.w + j :=
          Nat.add_le_add (Nat.mul_le_mul up narrow) left
      _ < e.w * e.h := cell_lt column row
      _ < 2147483648 := e.area
  · -- it comes to lie inside
    calc place r 100 i * place r 100 e.w + place r 100 j < place r 100 e.w * place r 100 e.h :=
          cell_lt (place_lt_place hundred grows column) (place_lt_place hundred grows row)
      _ < 2147483648 := scales.area

end Scales

namespace MaskedScreen

section Passes

variable {e : Extent} {r : Nat} {s : MaskedScreen}

/-- What the first pass puts for a pixel. -/
def filling (s : MaskedScreen) : Option (BitVec 32) := if s.hasMask then some s.emptyColor else none

/-- What the second pass puts for the pixel `(j, i)`. -/
def copying (e : Extent) (s : MaskedScreen) (i j : Nat) : Option (BitVec 32) :=
  if s.value e.w i j ≠ s.emptyColor ∨ s.hasMask = false then some (s.value e.w i j) else none

/-- The writes of the second pass come behind those of the first. -/
def scaleCells (e : Extent) (r : Nat) (s : MaskedScreen) (cells : Nat → BitVec 32) : Nat → BitVec 32 :=
  scatter (place r 100 e.w * place r 100 e.h)
    (pointWrites (List.range e.h) (List.range e.w) (scaledCell e r) (copying e s))
    (scatter (place r 100 e.w * place r 100 e.h)
      (pointWrites (List.range e.h) (List.range e.w) (scaledCell e r) fun _ _ => filling s) cells)

/-- A pixel at its scaled coordinates. -/
theorem setBuffer_scaled (scales : e.Scales r) {i j : Nat} (row : i < e.h) (column : j < e.w)
    (f : Nat → BitVec 32) (v : BitVec 32) :
    (ofCells (e.scaled r scales) f).setBuffer (scaledIndex (BitVec.ofNat 32 j) (BitVec.ofNat 32 r))
        (scaledIndex (BitVec.ofNat 32 i) (BitVec.ofNat 32 r)) v =
      ofCells (e.scaled r scales)
        (scatterOne (place r 100 e.w * place r 100 e.h) f (scaledCell e r i j, v)) := by
  have wide := scales.wide
  have high := scales.high
  have left : j * r ≤ e.w * r := Nat.mul_le_mul_right r (Nat.le_of_lt column)
  have up : i * r ≤ e.h * r := Nat.mul_le_mul_right r (Nat.le_of_lt row)
  rw [scaledIndex_eq (by omega), scaledIndex_eq (by omega)]
  exact setBuffer_at (has_ofCells (e.scaled r scales) f) v (scaledCell_small scales row column)

/-- **What `Scale` makes**: the cells are those of the two passes. -/
theorem scale_eq (memory : Nat → BitVec 32) (has : s.toLScreen.Has e) (scales : e.Scales r) :
    (s.scale memory (BitVec.ofNat 32 r)).toLScreen =
      ofCells (e.scaled r scales)
        (scaleCells e r s fun c => if c < place r 100 e.w * place r 100 e.h then 0 else memory c) := by
  have new := construct_eq memory (e.scaled r scales)
  have filled : ∀ i ∈ List.range e.h, ∀ j ∈ List.range e.w, ∀ f,
      s.fillPixel (BitVec.ofNat 32 r) i (ofCells (e.scaled r scales) f) j =
        ofCells (e.scaled r scales) ((filling s).elim f fun a =>
          scatterOne (place r 100 e.w * place r 100 e.h) f (scaledCell e r i j, a)) := by
    intro i row j column f
    have put := setBuffer_scaled scales (List.mem_range.1 row) (List.mem_range.1 column) f s.emptyColor
    unfold fillPixel filling
    split
    · exact put
    · rfl
  have copied : ∀ i ∈ List.range e.h, ∀ j ∈ List.range e.w, ∀ f,
      s.copyPixel (BitVec.ofNat 32 r) i (ofCells (e.scaled r scales) f) j =
        ofCells (e.scaled r scales) ((copying e s i j).elim f fun a =>
          scatterOne (place r 100 e.w * place r 100 e.h) f (scaledCell e r i j, a)) := by
    intro i row j column f
    have put := setBuffer_scaled scales (List.mem_range.1 row) (List.mem_range.1 column) f (s.value e.w i j)
    have cell := @getBuffer_inside s.pixels _ _ _ _ e.area (List.mem_range.1 column) (List.mem_range.1 row)
    rw [← has.w, ← has.h] at cell
    have value : s.pixels.cells (i * e.w + j) = s.value e.w i j := rfl
    unfold copyPixel copying
    rw [cell, value]
    simp only [Bool.not_eq_true']
    by_cases shown : s.value e.w i j ≠ s.emptyColor ∨ s.hasMask = false
    · rw [if_pos shown, if_pos shown]
      exact put
    · rw [if_neg shown, if_neg shown]
      rfl
  unfold scale overPixels
  rw [has.toNat_w, has.toNat_h, has.w, has.h, scaledSize_eq scales.wide, scaledSize_eq scales.high]
  dsimp only
  rw [show LScreen.construct memory (BitVec.ofNat 32 (place r 100 e.w)) (BitVec.ofNat 32 (place r 100 e.h)) = _ from new,
    foldl_points filled, foldl_points copied]
  rfl

end Passes

/-- The loops over the pixels keep what their bodies keep. -/
theorem overPixels_keeps {P : LScreen → Prop} (s : MaskedScreen) {body : Nat → LScreen → Nat → LScreen}
    (keeps : ∀ i t j, P t → P (body i t j)) {result : LScreen} (before : P result) : P (s.overPixels body result) :=
  List.foldlRecOn _ _ before fun _ outer i _ => List.foldlRecOn _ _ outer fun t inner j _ => keeps i t j inner

/-- The sizes of the new screen, whatever is computed for them. -/
theorem scale_sizes (memory : Nat → BitVec 32) (s : MaskedScreen) (ratio : BitVec 32) :
    (s.scale memory ratio).w = scaledSize s.w ratio ∧ (s.scale memory ratio).h = scaledSize s.h ratio := by
  let Sized (t : LScreen) : Prop := t.w = scaledSize s.w ratio ∧ t.h = scaledSize s.h ratio
  have put (t : LScreen) (x y v : BitVec 32) (sized : Sized t) : Sized (t.setBuffer x y v) := by
    obtain ⟨w, h, -⟩ := setBuffer_keeps t x y v
    exact ⟨w.trans sized.1, h.trans sized.2⟩
  have filled : Sized (s.overPixels (s.fillPixel ratio)
      (LScreen.construct memory (scaledSize s.w ratio) (scaledSize s.h ratio))) := by
    apply overPixels_keeps s _ ⟨rfl, rfl⟩
    intro i t j sized
    unfold fillPixel
    split
    · exact put t _ _ _ sized
    · exact sized
  apply overPixels_keeps s _ filled
  intro i t j sized
  unfold copyPixel
  split
  · split
    · exact put t _ _ _ sized
    · exact sized
  · exact sized

end MaskedScreen

end Lavoro.Screen
