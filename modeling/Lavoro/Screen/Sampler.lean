import Lavoro.Screen.Scale

/-!
# What a scaled screen shows

With a ratio up to 100 a pixel of the scaled screen shows the last of the pixels of the source whose
coordinates are rounded up to its own; the pixels of a column that is rounded up to the width come to
lie in the next row, where they are overwritten, unless the screen has a mask. With a ratio above 100
every pixel of the source is shown, but some pixels of the scaled screen show none.
-/

namespace Lavoro.Screen
open Lib LScreen

/-- `GetBuffer(x, y)` at a point of the plane. -/
def LScreen.pixel (s : LScreen) (x y : Nat) : Option (BitVec 32) :=
  s.getBuffer (BitVec.ofNat 32 x) (BitVec.ofNat 32 y)

theorem LScreen.Sized.pixel_eq {e : Extent} {s : LScreen} (sized : Sized e s) {x y : Nat} (left : x < e.w) (up : y < e.h) :
    s.pixel x y = some (s.value e.w y x) := by
  have cell := @getBuffer_inside s.pixels _ _ _ _ e.area left up
  rw [← sized.1, ← sized.2] at cell
  exact cell

theorem LScreen.pixel_eq {e : Extent} {s : LScreen} (has : s.Has e) {x y : Nat} (left : x < e.w) (up : y < e.h) :
    s.pixel x y = some (s.value e.w y x) := has.sized.pixel_eq left up

/-! ## The pixels that come to lie in a cell -/

/-- Two points of an array. -/
theorem cell_eq_iff {W p q x y : Nat} (hx : x < W) (hq : q < W) : p * W + q = y * W + x ↔ q = x ∧ p = y := by
  constructor
  · intro same
    rcases Nat.lt_trichotomy p y with before | rfl | behind
    · have lt := cell_before before hq x
      omega
    · exact ⟨by omega, rfl⟩
    · have lt := cell_before behind hx q
      omega
  · rintro ⟨rfl, rfl⟩
    rfl

/-- A column behind the last one is the first of the next row. -/
theorem cell_end_iff {W p x y : Nat} (hx : x < W) : p * W + W = y * W + x ↔ x = 0 ∧ p + 1 = y := by
  rw [← Nat.succ_mul, ← Nat.add_zero (p.succ * W), cell_eq_iff hx (Nat.zero_lt_of_lt hx)]
  exact and_congr_left fun _ => eq_comm

section Cells

variable {e : Extent} {r i j x y : Nat}

/-- A pixel of a shrunk screen lies at its own coordinates, or in the row below. -/
theorem scaledCell_eq_iff (column : j < e.w) (left : x < place r 100 e.w) :
    scaledCell e r i j = y * place r 100 e.w + x ↔
      place r 100 j = x ∧ place r 100 i = y ∨ place r 100 j = place r 100 e.w ∧ x = 0 ∧ place r 100 i + 1 = y := by
  have most : place r 100 j ≤ place r 100 e.w := place_mono (by decide) (Nat.le_of_lt column)
  unfold scaledCell
  rcases Nat.lt_or_eq_of_le most with inside | stray
  · rw [cell_eq_iff left inside]
    constructor
    · exact .inl
    · rintro (own | ⟨stray, -⟩)
      · exact own
      · exact absurd stray (Nat.ne_of_lt inside)
  · rw [stray, cell_end_iff left]
    constructor
    · exact fun below => .inr ⟨rfl, below⟩
    · rintro (⟨own, -⟩ | ⟨-, below⟩)
      · exact absurd own (Nat.ne_of_gt left)
      · exact below

/-- A pixel of a grown screen lies at its own coordinates. -/
theorem grownCell_eq_iff (grows : 100 < r) (column : j < e.w) (left : x < place r 100 e.w) :
    scaledCell e r i j = y * place r 100 e.w + x ↔ place r 100 j = x ∧ place r 100 i = y :=
  cell_eq_iff left (place_lt_place (by decide) (Nat.le_of_lt grows) column)

end Cells

namespace MaskedScreen

section Shown

variable {e : Extent} {r : Nat} {s : MaskedScreen} {x y : Nat}

/-- The pixel of the scaled screen is what the passes leave in its cell. -/
theorem pixel_scale (memory : Nat → BitVec 32) (has : s.toLScreen.Has e) (scales : e.Scales r)
    (left : x < place r 100 e.w) (up : y < place r 100 e.h) :
    (s.scale memory (BitVec.ofNat 32 r)).toLScreen.pixel x y =
      some (scaleCells e r s (fun c => if c < place r 100 e.w * place r 100 e.h then 0 else memory c)
        (y * place r 100 e.w + x)) := by
  rw [scale_eq memory has scales]
  exact LScreen.pixel_eq (has_ofCells (e.scaled r scales) _) left up

end Shown

/-! ## Without a mask -/

section Plain

variable {e : Extent} {r : Nat} {s : MaskedScreen} {x y : Nat}

/-- The last pixel with these coordinates is shown. -/
theorem scaleCells_plain (plain : s.hasMask = false) (cells : Nat → BitVec 32) (left : x < place r 100 e.w)
    (up : y < place r 100 e.h) {i j : Nat} (row : IsGreatest {i | i < e.h ∧ place r 100 i = y} i)
    (column : IsGreatest {j | j < e.w ∧ place r 100 j = x} j) :
    scaleCells e r s cells (y * place r 100 e.w + x) = s.value e.w i j := by
  obtain ⟨⟨rowIn, rowAt⟩, lastRow⟩ := row
  obtain ⟨⟨columnIn, columnAt⟩, lastColumn⟩ := column
  apply scatter_points_last (cell_lt left up) rowIn columnIn
  · exact (scaledCell_eq_iff columnIn left).2 (.inl ⟨columnAt, rowAt⟩)
  · exact if_pos (.inr plain)
  · intro i' j' rowIn' columnIn' later _ here
    rcases (scaledCell_eq_iff columnIn' left).1 here with ⟨sameColumn, sameRow⟩ | ⟨-, -, above⟩
    · have notBelow := lastRow ⟨rowIn', sameRow⟩
      have notRight := lastColumn ⟨columnIn', sameColumn⟩
      omega
    · -- a pixel from the row above has been written before
      have before : place r 100 i' < place r 100 i := by omega
      have earlier := lt_of_place_lt (by decide) before
      omega

/-- **Scaling down without a mask samples.** Every pixel shows the source at the last column and row that
are rounded up to its own; with the ratio 100 the screen is copied. -/
theorem scale_samples (memory : Nat → BitVec 32) (has : s.toLScreen.Has e) (plain : s.hasMask = false)
    (shrinks : r ≤ 100) (wide : e.w * r + 99 < 2147483648) (high : e.h * r + 99 < 2147483648) :
    let result := s.scale memory (BitVec.ofNat 32 r)
    result.w = BitVec.ofNat 32 (e.w * r ⌈/⌉ 100) ∧ result.h = BitVec.ofNat 32 (e.h * r ⌈/⌉ 100) ∧
      result.pixels.outside = false ∧
      (∀ x y, x < e.w * r ⌈/⌉ 100 → y < e.h * r ⌈/⌉ 100 →
        ∃ j i, IsGreatest {j | j < e.w ∧ j * r ⌈/⌉ 100 = x} j ∧ IsGreatest {i | i < e.h ∧ i * r ⌈/⌉ 100 = y} i ∧
          result.pixel x y = some (s.value e.w i j) ∧ s.pixel j i = some (s.value e.w i j)) ∧
      (r = 100 → result.w = s.w ∧ result.h = s.h ∧
        ∀ x y, x < e.w → y < e.h → result.pixel x y = s.pixel x y) := by
  intro result
  have scales := Extent.Scales.of_le shrinks wide high
  have new : result.toLScreen = _ := scale_eq memory has scales
  have sampled : ∀ x y, x < e.w * r ⌈/⌉ 100 → y < e.h * r ⌈/⌉ 100 →
      ∃ j i, IsGreatest {j | j < e.w ∧ j * r ⌈/⌉ 100 = x} j ∧ IsGreatest {i | i < e.h ∧ i * r ⌈/⌉ 100 = y} i ∧
        result.pixel x y = some (s.value e.w i j) ∧ s.pixel j i = some (s.value e.w i j) := by
    intro x y left up
    obtain ⟨j, column⟩ := exists_last (by decide) shrinks left
    obtain ⟨i, row⟩ := exists_last (by decide) shrinks up
    refine ⟨j, i, column, row, ?_, LScreen.pixel_eq has column.1.1 row.1.1⟩
    exact (pixel_scale memory has scales left up).trans
      (congrArg some (scaleCells_plain plain _ left up row column))
  refine ⟨by rw [new]; rfl, by rw [new]; rfl, by rw [new]; rfl, sampled, ?_⟩
  rintro rfl
  have same (n : Nat) : n * 100 ⌈/⌉ 100 = n := place_self (by decide) n
  refine ⟨?_, ?_, fun x y left up => ?_⟩
  · rw [new, has.w]
    exact congrArg (BitVec.ofNat 32) (same e.w)
  · rw [new, has.h]
    exact congrArg (BitVec.ofNat 32) (same e.h)
  · obtain ⟨j, i, column, row, shown, source⟩ := sampled x y (by rwa [same]) (by rwa [same])
    obtain rfl : j = x := (same j).symm.trans column.1.2
    obtain rfl : i = y := (same i).symm.trans row.1.2
    exact shown.trans source.symm

end Plain

/-- Four columns and two rows, each pixel of a colour of its own. -/
def dots : MaskedScreen where
  toLScreen := ofCells ⟨4, 2, by decide, square.height, by decide⟩ fun k => BitVec.ofNat 32 k
  x := 0
  y := 0
  emptyColor := 0
  hasMask := false

theorem dots_halved : (dots.scale (fun _ => 0) 50).w = 2 ∧ (dots.scale (fun _ => 0) 50).h = 1 := by
  have samples := scale_samples (r := 50) (fun _ => 0) (has_ofCells ⟨4, 2, by decide, square.height, by decide⟩ _)
    (show dots.hasMask = false from rfl) (by decide) (by decide) (by decide)
  exact ⟨samples.1, samples.2.1⟩

/-! ## With a mask -/

section Masked

variable {e : Extent} {r : Nat} {s : MaskedScreen} {x y : Nat}

/-- The pixel `(j, i)` of the source is not empty. -/
def Painted (e : Extent) (s : MaskedScreen) (j i : Nat) : Prop :=
  j < e.w ∧ i < e.h ∧ s.value e.w i j ≠ s.emptyColor

theorem copying_painted {i j : Nat} (painted : Painted e s j i) :
    copying e s i j = some (s.value e.w i j) :=
  if_pos (.inl painted.2.2)

/-- What is put in the second pass comes from a pixel that is not empty. -/
theorem painted_of_copying (masked : s.hasMask = true) {i j : Nat} {a : BitVec 32} (row : i < e.h) (column : j < e.w)
    (put : copying e s i j = some a) : Painted e s j i ∧ s.value e.w i j = a := by
  unfold copying at put
  split at put
  · rename_i shown
    rw [masked] at shown
    exact ⟨⟨column, row, shown.resolve_right (by decide)⟩, Option.some.inj put⟩
  · cases put

/-- A cell with a pixel that is not empty at its own coordinates shows such a pixel. -/
theorem scaleCells_painted (masked : s.hasMask = true) (cells : Nat → BitVec 32) (left : x < place r 100 e.w)
    (up : y < place r 100 e.h) {i j : Nat} (painted : Painted e s j i) (columnAt : place r 100 j = x)
    (rowAt : place r 100 i = y) :
    ∃ j i, Painted e s j i ∧ place r 100 j = x ∧ place r 100 i = y ∧
      scaleCells e r s cells (y * place r 100 e.w + x) = s.value e.w i j := by
  have here : scaledCell e r i j = y * place r 100 e.w + x :=
    (scaledCell_eq_iff painted.1 left).2 (.inl ⟨columnAt, rowAt⟩)
  obtain ⟨i', j', a, behind, rowIn, columnIn, at', put, shown⟩ :=
    scatter_points_mem (N := place r 100 e.w * place r 100 e.h)
      (f := scatter _ (pointWrites (List.range e.h) (List.range e.w) (scaledCell e r) fun _ _ => filling s) cells)
      i (cell_lt left up) painted.2.1 painted.1 (Nat.le_refl i) here (copying_painted painted)
  obtain ⟨painted', rfl⟩ := painted_of_copying masked rowIn columnIn put
  rcases (scaledCell_eq_iff columnIn left).1 at' with own | ⟨-, -, above⟩
  · exact ⟨j', i', painted', own.1, own.2, shown⟩
  · -- the pixels of the row above come before
    have later : place r 100 i ≤ place r 100 i' := place_mono (by decide) behind
    omega

/-- A cell with no pixel that is not empty, neither its own nor one of the row above, is empty. -/
theorem scaleCells_empty (masked : s.hasMask = true) (shrinks : r ≤ 100) (cells : Nat → BitVec 32)
    (left : x < place r 100 e.w) (up : y < place r 100 e.h)
    (none : ∀ j i, Painted e s j i → scaledCell e r i j ≠ y * place r 100 e.w + x) :
    scaleCells e r s cells (y * place r 100 e.w + x) = s.emptyColor := by
  obtain ⟨j, ⟨columnIn, columnAt⟩, -⟩ := exists_last (by decide) shrinks left
  obtain ⟨i, ⟨rowIn, rowAt⟩, -⟩ := exists_last (by decide) shrinks up
  have here : scaledCell e r i j = y * place r 100 e.w + x :=
    (scaledCell_eq_iff columnIn left).2 (.inl ⟨columnAt, rowAt⟩)
  have fill : filling s = some s.emptyColor := if_pos masked
  refine (scatter_points_none fun i j row column put => ?_).trans ?_
  · obtain ⟨a, put⟩ := Option.ne_none_iff_exists'.1 put
    exact none j i (painted_of_copying masked row column put).1
  · obtain ⟨-, -, a, -, -, -, -, put, shown⟩ :=
      scatter_points_mem (N := place r 100 e.w * place r 100 e.h) (f := cells) (v := fun _ _ => filling s)
        0 (cell_lt left up) rowIn columnIn (Nat.zero_le i) here fill
    rw [shown]
    exact (Option.some.inj (fill.symm.trans put)).symm

/-- The pixels of the scaled screen show what is painted at their coordinates, and nothing else. -/
def PaintsWhereSource (e : Extent) (r : Nat) (s result : MaskedScreen) : Prop :=
  ∀ x y, x < e.w * r ⌈/⌉ 100 → y < e.h * r ⌈/⌉ 100 → ∃ v, result.pixel x y = some v ∧
    (v ≠ s.emptyColor ↔ ∃ j i, Painted e s j i ∧ j * r ⌈/⌉ 100 = x ∧ i * r ⌈/⌉ 100 = y) ∧
    (v ≠ s.emptyColor → ∃ j i, Painted e s j i ∧ j * r ⌈/⌉ 100 = x ∧ i * r ⌈/⌉ 100 = y ∧ s.value e.w i j = v)

/-- **When scaling down with a mask paints only where the source does**: below every painted pixel of a
column that is rounded up to the width, unless it is in the last row, the first column is painted. -/
theorem masked_scale_iff (memory : Nat → BitVec 32) (has : s.toLScreen.Has e) (masked : s.hasMask = true)
    (some : 1 ≤ r) (shrinks : r ≤ 100) (wide : e.w * r + 99 < 2147483648) (high : e.h * r + 99 < 2147483648) :
    PaintsWhereSource e r s (s.scale memory (BitVec.ofNat 32 r)) ↔
      ∀ j i, Painted e s j i → j * r ⌈/⌉ 100 = e.w * r ⌈/⌉ 100 → i * r ⌈/⌉ 100 + 1 < e.h * r ⌈/⌉ 100 →
        ∃ k, Painted e s 0 k ∧ k * r ⌈/⌉ 100 = i * r ⌈/⌉ 100 + 1 := by
  have scales := Extent.Scales.of_le shrinks wide high
  let cells : Nat → BitVec 32 := fun c => if c < place r 100 e.w * place r 100 e.h then 0 else memory c
  constructor
  · intro paints j i painted stray inside
    have left : 0 < place r 100 e.w := by
      have column : 0 < e.w := Nat.zero_lt_of_lt painted.1
      have zero := place_eq_zero_iff (j := e.w) (show 0 < 100 by decide) some
      omega
    have here : scaledCell e r i j = (place r 100 i + 1) * place r 100 e.w + 0 :=
      (scaledCell_eq_iff painted.1 left).2 (.inr ⟨stray, rfl, rfl⟩)
    obtain ⟨i', j', a, -, rowIn, columnIn, -, put, shown⟩ :=
      scatter_points_mem (N := place r 100 e.w * place r 100 e.h)
        (f := scatter _ (pointWrites (List.range e.h) (List.range e.w) (scaledCell e r) fun _ _ => filling s) cells)
        0 (cell_lt left inside) painted.2.1 painted.1 (Nat.zero_le i) here (copying_painted painted)
    obtain ⟨painted', rfl⟩ := painted_of_copying masked rowIn columnIn put
    obtain ⟨v, pixel, where', -⟩ := paints 0 (place r 100 i + 1) left inside
    have value : v = s.value e.w i' j' := by
      have cell := pixel_scale memory has scales left inside
      exact Option.some.inj (pixel.symm.trans (cell.trans (congrArg Option.some shown)))
    obtain ⟨j'', k, own, columnAt, rowAt⟩ := where'.1 (by rw [value]; exact painted'.2.2)
    obtain rfl := (place_eq_zero_iff (by decide) some).1 columnAt
    exact ⟨k, own, rowAt⟩
  · intro covered x y left up
    have pixel := pixel_scale memory has scales left up
    by_cases own : ∃ j i, Painted e s j i ∧ place r 100 j = x ∧ place r 100 i = y
    · obtain ⟨j, i, painted, columnAt, rowAt⟩ := own
      obtain ⟨j', i', painted', columnAt', rowAt', shown⟩ :=
        scaleCells_painted masked cells left up painted columnAt rowAt
      rw [shown] at pixel
      exact ⟨_, pixel, iff_of_true painted'.2.2 ⟨j', i', painted', columnAt', rowAt'⟩,
        fun _ => ⟨j', i', painted', columnAt', rowAt', rfl⟩⟩
    · have empty := scaleCells_empty masked shrinks cells left up fun j i painted here => by
        rcases (scaledCell_eq_iff painted.1 left).1 here with ⟨columnAt, rowAt⟩ | ⟨stray, start, below⟩
        · exact own ⟨j, i, painted, columnAt, rowAt⟩
        · obtain ⟨k, painted', below'⟩ := covered j i painted stray (lt_of_eq_of_lt below up)
          exact own ⟨0, k, painted', (place_zero r 100).trans start.symm, below'.trans below⟩
      rw [empty] at pixel
      exact ⟨_, pixel, iff_of_false (fun not => not rfl) own, fun not => absurd rfl not⟩

end Masked

/-- A white screen with one black pixel, in the right column of the first of three rows. -/
def speck : MaskedScreen where
  toLScreen := ofCells ⟨2, 3, square.width, by decide, by decide⟩ fun k => if k = 1 then 0 else 0xffffff
  x := 0
  y := 0
  emptyColor := 0xffffff
  hasMask := true

theorem speck_copied :
    PaintsWhereSource ⟨2, 3, square.width, by decide, by decide⟩ 100 speck (speck.scale (fun _ => 0) 100) := by
  refine (masked_scale_iff (r := 100) (fun _ => 0) (has_ofCells _ _) rfl (by decide) (by decide) (by decide)
    (by decide)).2 fun j i painted stray _ => ?_
  have same (n : Nat) : n * 100 ⌈/⌉ 100 = n := place_self (by decide) n
  rw [same, same] at stray
  exact absurd stray (Nat.ne_of_lt painted.1)

/-- Halved, it shows the black pixel below the one that it would be. -/
theorem speck_strays :
    (speck.scale (fun _ => 0) 50).pixel 0 1 = some 0 ∧
      ¬ PaintsWhereSource ⟨2, 3, square.width, by decide, by decide⟩ 50 speck (speck.scale (fun _ => 0) 50) := by
  have strays : (speck.scale (fun _ => 0) 50).pixel 0 1 = some 0 := by decide +kernel
  refine ⟨strays, fun paints => ?_⟩
  obtain ⟨v, pixel, where', -⟩ := paints 0 1 (by decide) (by decide)
  obtain rfl : 0 = v := Option.some.inj (strays.symm.trans pixel)
  obtain ⟨j, i, painted, columnAt, -⟩ := where'.1 (by decide)
  obtain rfl := (place_eq_zero_iff (r := 50) (show 0 < 100 by decide) (by decide)).1 columnAt
  have white : speck.value 2 i 0 = 0xffffff := if_neg (by omega)
  exact painted.2.2 white

/-! ## Scaling up -/

section Grown

variable {e : Extent} {r : Nat} {s : MaskedScreen} {x y : Nat}

/-- Every pixel of the source is shown at its coordinates. -/
theorem scaleCells_grown (grows : 100 < r) (cells : Nat → BitVec 32) {i j : Nat} (row : i < e.h) (column : j < e.w) :
    scaleCells e r s cells (place r 100 i * place r 100 e.w + place r 100 j) = s.value e.w i j := by
  have left := place_lt_place (show 0 < 100 by decide) (Nat.le_of_lt grows) column
  have up := place_lt_place (show 0 < 100 by decide) (Nat.le_of_lt grows) row
  have alone : ∀ i' j', j' < e.w → scaledCell e r i' j' = place r 100 i * place r 100 e.w + place r 100 j →
      i' = i ∧ j' = j := by
    intro i' j' column' here
    obtain ⟨sameColumn, sameRow⟩ := (grownCell_eq_iff grows column' left).1 here
    exact ⟨place_injective (by decide) (Nat.le_of_lt grows) sameRow,
      place_injective (by decide) (Nat.le_of_lt grows) sameColumn⟩
  by_cases shown : s.value e.w i j ≠ s.emptyColor ∨ s.hasMask = false
  · apply scatter_points_last (cell_lt left up) row column rfl (if_pos shown)
    intro i' j' _ column' later _ here
    have same := alone i' j' column' here
    omega
  · rw [not_or, not_not] at shown
    obtain ⟨empty, masked⟩ := shown
    refine (scatter_points_none fun i' j' _ column' put here => ?_).trans ?_
    · obtain ⟨rfl, rfl⟩ := alone i' j' column' here
      refine put (if_neg ?_)
      rw [not_or, not_not]
      exact ⟨empty, masked⟩
    · rw [empty]
      apply scatter_points_last (v := fun _ _ => filling s) (cell_lt left up) row column rfl
        (if_pos (Bool.not_eq_false _ ▸ masked))
      intro i' j' _ column' later _ here
      have same := alone i' j' column' here
      omega

/-- A pixel that none of the source comes to lie in keeps what it had. -/
theorem scaleCells_hole (grows : 100 < r) (cells : Nat → BitVec 32) (left : x < place r 100 e.w)
    (none : ∀ j i, j < e.w → i < e.h → ¬ (place r 100 j = x ∧ place r 100 i = y)) :
    scaleCells e r s cells (y * place r 100 e.w + x) = cells (y * place r 100 e.w + x) := by
  have empty : ∀ i j, i < e.h → j < e.w → scaledCell e r i j ≠ y * place r 100 e.w + x :=
    fun i j row column here => none j i column row ((grownCell_eq_iff grows column left).1 here)
  refine (scatter_points_none fun i j row column _ => empty i j row column).trans ?_
  exact scatter_points_none fun i j row column _ => empty i j row column

/-- It is a hole, which shows what the new screen is cleared with. -/
theorem pixel_hole (memory : Nat → BitVec 32) (has : s.toLScreen.Has e) (grows : 100 < r) (scales : e.Scales r)
    (left : x < place r 100 e.w) (up : y < place r 100 e.h)
    (none : ∀ j i, j < e.w → i < e.h → ¬ (place r 100 j = x ∧ place r 100 i = y)) :
    (s.scale memory (BitVec.ofNat 32 r)).toLScreen.pixel x y = some 0 := by
  rw [pixel_scale memory has scales left up, scaleCells_hole grows _ left none, if_pos (cell_lt left up)]

/-- Every pixel of the scaled screen has the colour of a pixel of the source. -/
def Filled (e : Extent) (r : Nat) (s result : MaskedScreen) : Prop :=
  ∀ x y, x < e.w * r ⌈/⌉ 100 → y < e.h * r ⌈/⌉ 100 → ∃ j i, j < e.w ∧ i < e.h ∧ result.pixel x y = s.pixel j i

/-- **When scaling up leaves no holes**: only where 0 is a colour of the source. Some pixels keep it. -/
theorem grown_filled_iff (memory : Nat → BitVec 32) (has : s.toLScreen.Has e) (wide : 1 ≤ e.w) (high : 1 ≤ e.h)
    (grows : 100 < r) (scales : e.Scales r) :
    Filled e r s (s.scale memory (BitVec.ofNat 32 r)) ↔ ∃ j i, j < e.w ∧ i < e.h ∧ s.pixel j i = some 0 := by
  constructor
  · intro filled
    obtain ⟨x, left, out⟩ := exists_gap (show 0 < 100 by decide) grows wide
    have up : 0 < place r 100 e.h := Nat.lt_trans high (lt_place_of_grows (by decide) grows high)
    obtain ⟨j, i, column, row, same⟩ := filled x 0 left up
    have hole := pixel_hole memory has grows scales left up fun j i column _ at' => out j column at'.1
    exact ⟨j, i, column, row, same.symm.trans hole⟩
  · rintro ⟨j₀, i₀, column₀, row₀, zero⟩ x y left up
    by_cases own : ∃ j i, j < e.w ∧ i < e.h ∧ place r 100 j = x ∧ place r 100 i = y
    · obtain ⟨j, i, column, row, rfl, rfl⟩ := own
      have pixel := pixel_scale memory has scales left up
      rw [scaleCells_grown grows _ row column] at pixel
      exact ⟨j, i, column, row, pixel.trans (LScreen.pixel_eq has column row).symm⟩
    · have hole := pixel_hole memory has grows scales left up fun j i column row at' =>
        own ⟨j, i, column, row, at'.1, at'.2⟩
      exact ⟨j₀, i₀, column₀, row₀, hole.trans zero.symm⟩

end Grown

/-- A single pixel of this colour. -/
def single (v : BitVec 32) : MaskedScreen where
  toLScreen := ofCells ⟨1, 1, line.height, line.height, by decide⟩ fun _ => v
  x := 0
  y := 0
  emptyColor := 0xffffff
  hasMask := false

theorem black_doubled :
    Filled ⟨1, 1, line.height, line.height, by decide⟩ 200 (single 0) ((single 0).scale (fun _ => 0) 200) :=
  (grown_filled_iff (r := 200) (fun _ => 0) (has_ofCells _ _) (by decide) (by decide) (by decide)
    ⟨by decide, by decide, by decide⟩).2 ⟨0, 0, by decide, by decide, by decide⟩

/-- A white pixel doubled has black ones. -/
theorem white_doubled_black :
    ((single 0xffffff).scale (fun _ => 0) 200).pixel 1 0 = some 0 ∧
      ¬ Filled ⟨1, 1, line.height, line.height, by decide⟩ 200 (single 0xffffff)
        ((single 0xffffff).scale (fun _ => 0) 200) := by
  have black : ((single 0xffffff).scale (fun _ => 0) 200).pixel 1 0 = some 0 := by decide +kernel
  refine ⟨black, fun filled => ?_⟩
  obtain ⟨j, i, column, row, same⟩ := filled 1 0 (by decide) (by decide)
  obtain rfl : j = 0 := Nat.lt_one_iff.1 column
  obtain rfl : i = 0 := Nat.lt_one_iff.1 row
  rw [black] at same
  exact absurd same (by decide)

end MaskedScreen

end Lavoro.Screen
