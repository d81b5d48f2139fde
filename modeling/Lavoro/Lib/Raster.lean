import Mathlib.Data.Int.ModEq
import Mathlib.Logic.Nontrivial.Basic
import Mathlib.Tactic.Ring

/-!
# Rows written into an array

A picture of `w` times `h` values is written row by row into an array whose rows have `W`
cells, its first value into the cell `b`, each row as far as the array reaches (`putRows`);
the picture may be kept in an array of its own, row by row (`fun i j => u (i * w + j)`).
The picture is clipped when the cells it covers, as points of the plane, are the only ones
written. `putRows_clips_iff` says when this is so if `b` is the place of the point `(x, y)` up
to multiples of a number that no index of a cell reaches.
-/

namespace Lavoro.Lib

variable {α : Type}

/-- The cell `c` belongs to the `i`-th row. -/
def InRow (W b w i c : Nat) : Prop := b + i * W ≤ c ∧ c < b + i * W + w

/-- `w` values written from the cell `s` on into an array of `N` cells. -/
def putRow (N s w : Nat) (v : Nat → α) (f : Nat → α) : Nat → α :=
  fun c => if s ≤ c ∧ c < s + w ∧ c < N then v (c - s) else f c

/-- The first rows, one after the other. -/
def putRows (N W b w : Nat) (v : Nat → Nat → α) (f : Nat → α) : Nat → Nat → α
  | 0 => f
  | m + 1 => putRow N (b + m * W) w (v m) (putRows N W b w v f m)

section Cells

theorem putRow_zero (N s : Nat) (v : Nat → α) (f : Nat → α) : putRow N s 0 v f = f := by
  funext c
  exact if_neg fun h => Nat.not_lt_of_le h.1 h.2.1

/-- A single value, inside the array or behind it. -/
theorem putRow_one_inside {N s : Nat} (inside : s < N) (a : α) (f : Nat → α) :
    putRow N s 1 (fun _ => a) f = fun c => if c = s then a else f c := by
  funext c
  have single : s ≤ c ∧ c < s + 1 ∧ c < N ↔ c = s := by omega
  simp only [putRow, single]

theorem putRow_one_behind {N s : Nat} (behind : N ≤ s) (a : α) (f : Nat → α) :
    putRow N s 1 (fun _ => a) f = f := by
  funext c
  exact if_neg (by omega)

/-- One more value. -/
theorem putRow_succ (N s w : Nat) (v : Nat → α) (f : Nat → α) :
    putRow N s (w + 1) v f = putRow N (s + w) 1 (fun _ => v w) (putRow N s w v f) := by
  funext c
  unfold putRow
  by_cases last : c = s + w
  · subst last
    by_cases inside : s + w < N
    · rw [if_pos ⟨by omega, by omega, inside⟩, if_pos ⟨by omega, by omega, inside⟩, Nat.add_sub_cancel_left]
    · rw [if_neg (by omega), if_neg (by omega), if_neg (by omega)]
  · by_cases before : s ≤ c ∧ c < s + w ∧ c < N
    · rw [if_pos ⟨by omega, by omega, by omega⟩, if_neg (by omega), if_pos before]
    · rw [if_neg (by omega), if_neg (by omega), if_neg before]

variable {N W b w m c : Nat} {v : Nat → Nat → α} {f : Nat → α}

theorem putRow_of_inRow {i : Nat} (inside : c < N) (here : InRow W b w i c) (g : Nat → α) :
    putRow N (b + i * W) w (v i) g c = v i (c - (b + i * W)) :=
  if_pos ⟨here.1, here.2, inside⟩

theorem putRow_of_not_inRow {i : Nat} (out : ¬ InRow W b w i c) (g : Nat → α) :
    putRow N (b + i * W) w (v i) g c = g c :=
  if_neg fun h => out ⟨h.1, h.2.1⟩

/-- A cell that belongs to no row is left alone. -/
theorem putRows_of_none (none : ∀ i, i < m → ¬ InRow W b w i c) : putRows N W b w v f m c = f c := by
  induction m with
  | zero => rfl
  | succ m ih =>
    rw [putRows, putRow_of_not_inRow (none m (Nat.lt_succ_self m))]
    exact ih fun i lt => none i (Nat.lt_succ_of_lt lt)

/-- A cell holds the value of the last row that it belongs to. -/
theorem putRows_of_last {i : Nat} (inside : c < N) (lt : i < m) (here : InRow W b w i c)
    (last : ∀ k, i < k → k < m → ¬ InRow W b w k c) :
    putRows N W b w v f m c = v i (c - (b + i * W)) := by
  induction m with
  | zero => cases lt
  | succ m ih =>
    rw [putRows]
    rcases Nat.lt_succ_iff_lt_or_eq.1 lt with before | rfl
    · rw [putRow_of_not_inRow (last m before (Nat.lt_succ_self m))]
      exact ih before fun k above below => last k above (Nat.lt_succ_of_lt below)
    · exact putRow_of_inRow inside here _

/-- A cell of some row holds the value of a picture of one value. -/
theorem putRows_const {a : α} {i : Nat} (inside : c < N) (lt : i < m) (here : InRow W b w i c) :
    putRows N W b w (fun _ _ => a) f m c = a := by
  induction m with
  | zero => cases lt
  | succ m ih =>
    rw [putRows]
    by_cases now : InRow W b w m c
    · exact putRow_of_inRow (v := fun _ _ => a) inside now _
    · have before : i < m := by
        apply Nat.lt_of_le_of_ne (Nat.le_of_lt_succ lt)
        rintro rfl
        exact now here
      rw [putRow_of_not_inRow (v := fun _ _ => a) now]
      exact ih before

end Cells

/-- The point `(p, q)` is covered by a picture of `w` times `h` at `(x, y)`. -/
def Covers (w h : Nat) (x y : Int) (p q : Nat) : Prop := x ≤ p ∧ p < x + w ∧ y ≤ q ∧ q < y + h

/-- The array `g` of `W` times `H` cells is `f` with the picture `v` at `(x, y)`, as much of it as
is inside. -/
def Clips (W H w h : Nat) (x y : Int) (v : Nat → Nat → α) (f g : Nat → α) : Prop :=
  ∀ p q, p < W → q < H →
    (Covers w h x y p q → g (q * W + p) = v (q - y).toNat (p - x).toNat) ∧
      (¬ Covers w h x y p q → g (q * W + p) = f (q * W + p))

/-- At `(x, y)` no row of the picture runs into cells that it does not cover, unless the next
row covers them. -/
def Fits (W H w h : Nat) (x y : Int) : Prop :=
  0 ≤ x ∧ x < W ∧ 0 ≤ y ∧ y < H ∧ (x + w ≤ W ∨ y = H - 1 ∨ x = 0 ∧ H ≤ y + h)

theorem cell_lt {W H p q : Nat} (left : p < W) (up : q < H) : q * W + p < W * H := by
  calc q * W + p < q * W + W := Nat.add_lt_add_left left _
    _ = (q + 1) * W := (Nat.succ_mul q W).symm
    _ ≤ H * W := Nat.mul_le_mul_right W up
    _ = W * H := Nat.mul_comm H W

/-- Indices that are the same up to multiples of `M`, and below `M`, are the same. -/
theorem eq_of_modEq {M a b : Nat} (same : (a : Int) ≡ b [ZMOD M]) (ha : a < M) (hb : b < M) : a = b := by
  have h := Int.natCast_modEq_iff.1 same
  rwa [Nat.ModEq, Nat.mod_eq_of_lt ha, Nat.mod_eq_of_lt hb] at h

/-- A cell of an earlier row comes before. -/
theorem cell_before {W q r p : Nat} (lt : q < r) (left : p < W) (o : Nat) : q * W + p < r * W + o := by
  calc q * W + p < q * W + W := Nat.add_lt_add_left left _
    _ = (q + 1) * W := (Nat.succ_mul q W).symm
    _ ≤ r * W := Nat.mul_le_mul_right W lt
    _ ≤ r * W + o := Nat.le_add_right _ _

section Inside

variable {W H w h m x y p q : Nat} {v : Nat → Nat → α} {f : Nat → α}

theorem inRow_iff {i : Nat} :
    InRow W (y * W + x) w i (q * W + p) ↔ (y + i) * W + x ≤ q * W + p ∧ q * W + p < (y + i) * W + (x + w) := by
  unfold InRow
  rw [Nat.add_mul]
  omega

/-- A cell that the picture covers belongs to the row of its point, and to no later one. -/
theorem inRow_of_covers (covers : Covers w h x y p q) :
    InRow W (y * W + x) w (q - y) (q * W + p) := by
  unfold Covers at covers
  rw [inRow_iff, show y + (q - y) = q by omega]
  omega

theorem not_inRow_later {i : Nat} (left : p < W) (later : q < y + i) :
    ¬ InRow W (y * W + x) w i (q * W + p) := by
  have before := cell_before later left x
  rw [inRow_iff]
  omega

/-- A row that runs into a cell that it does not cover. -/
theorem inRow_uncovered {i : Nat} (left : p < W) (lt : i < h) (out : ¬ Covers w h x y p q)
    (here : InRow W (y * W + x) w i (q * W + p)) : y + i < q ∧ W < x + w := by
  unfold Covers at out
  have notLater : ¬ q < y + i := fun later => not_inRow_later left later here
  rw [inRow_iff] at here
  rcases Nat.lt_or_eq_of_le (Nat.le_of_not_lt notLater) with earlier | same
  · refine ⟨earlier, ?_⟩
    by_contra fits
    have next : (y + i) * W + W ≤ q * W := by
      rw [← Nat.succ_mul]
      exact Nat.mul_le_mul_right W earlier
    omega
  · rw [same] at here
    omega

/-- **A picture that fits** is clipped. -/
theorem putRows_clips (fits : Fits W H w h x y) :
    Clips W H w h x y v f (putRows (W * H) W (y * W + x) w v f h) := by
  obtain ⟨-, left, -, up, side⟩ := fits
  intro p q hp hq
  refine ⟨fun covers => ?_, fun out => ?_⟩
  · have row : q - y < h := by
      unfold Covers at covers
      omega
    have place : q * W + p - (y * W + x + (q - y) * W) = p - x := by
      have split : q * W = y * W + (q - y) * W := by
        rw [← Nat.add_mul, show y + (q - y) = q by unfold Covers at covers; omega]
      omega
    rw [putRows_of_last (cell_lt hp hq) row (inRow_of_covers covers), place]
    · congr 1 <;> omega
    · intro k above _
      exact not_inRow_later hp (by omega)
  · refine putRows_of_none fun i lt here => ?_
    obtain ⟨earlier, wide⟩ := inRow_uncovered hp lt out here
    rcases side with narrow | bottom | ⟨start, tall⟩
    · omega
    · omega
    · -- the row that covers the cell, or one behind its end
      have start' : x = 0 := by omega
      subst start'
      unfold Covers at out
      have next := cell_before earlier (show 0 < W by omega) 0
      rw [inRow_iff] at here
      omega

end Inside

/-- A picture whose first cell is behind the array covers none of its points, where `b` is the
place of `(x, y)` up to multiples of `M`. -/
theorem not_covers_behind {W H w h b M p q : Nat} {x y : Int} (place : (b : Int) ≡ y * W + x [ZMOD M])
    (noWrap : b + (h - 1) * W + (w - 1) < M) (area : W * H ≤ M) (behind : W * H ≤ b)
    (hp : p < W) (hq : q < H) : ¬ Covers w h x y p q := by
  rintro ⟨left, right, up, down⟩
  obtain ⟨j, hj⟩ := Int.eq_ofNat_of_zero_le (show 0 ≤ p - x by omega)
  obtain ⟨i, hi⟩ := Int.eq_ofNat_of_zero_le (show 0 ≤ q - y by omega)
  have rows : i * W ≤ (h - 1) * W := Nat.mul_le_mul_right W (by omega)
  have cell := cell_lt hp hq
  have moved := place.add_right ((i * W + j : Nat) : Int)
  have point : y * W + x + ((i * W + j : Nat) : Int) = ((q * W + p : Nat) : Int) := by
    push_cast
    rw [← hi, ← hj]
    ring
  rw [point, ← Nat.cast_add] at moved
  have same := eq_of_modEq moved (by omega) (by omega)
  omega

section Converse

variable [Nontrivial α] {W H w h : Nat}

/-- Where every picture is clipped the first cell is that of the point `(x, y)`. -/
theorem first_cell_of_clips {b : Nat} {x y : Int} (some : 0 < h) (wide : 0 < w) (inside : b < W * H)
    (clips : ∀ (u : Nat → α) f,
      Clips W H w h x y (fun i j => u (i * w + j)) f
        (putRows (W * H) W b w (fun i j => u (i * w + j)) f h)) :
    ∃ X Y : Nat, x = X ∧ y = Y ∧ X < W ∧ Y < H ∧ b = Y * W + X := by
  obtain ⟨a, a', differ⟩ := exists_pair_ne α
  have width : 0 < W := Nat.pos_of_mul_pos_right (Nat.zero_lt_of_lt inside)
  have left : b % W < W := Nat.mod_lt b width
  have up : b / W < H := Nat.div_lt_of_lt_mul inside
  have cell : b / W * W + b % W = b := Nat.div_add_mod' b W
  -- of the picture only the first value is `a`
  have clip := clips (fun k => if k = 0 then a else a') (fun _ => a') _ _ left up
  have first : InRow W b w 0 b := ⟨by omega, by omega⟩
  have later : ∀ k, 0 < k → k < h → ¬ InRow W b w k b := by
    rintro k pos - ⟨low, -⟩
    have step : 0 < k * W := Nat.mul_pos pos width
    omega
  rw [cell, putRows_of_last inside some first later] at clip
  simp only [Nat.zero_mul, Nat.add_zero, Nat.sub_self, if_true] at clip
  by_cases covers : Covers w h x y (b % W) (b / W)
  · have value := clip.1 covers
    split at value
    · rename_i zero
      obtain ⟨row, column⟩ := Nat.add_eq_zero_iff.1 zero
      have row' := (Nat.mul_eq_zero.1 row).resolve_right (Nat.ne_of_gt wide)
      refine ⟨b % W, b / W, ?_, ?_, left, up, cell.symm⟩
      · unfold Covers at covers
        omega
      · unfold Covers at covers
        omega
    · exact absurd value differ
  · exact absurd (clip.2 covers) differ

/-- A cell of a row is covered where every picture is clipped. -/
theorem covers_of_clips {x y p q i : Nat} (hp : p < W) (hq : q < H) (lt : i < h)
    (here : InRow W (y * W + x) w i (q * W + p))
    (clips : ∀ (u : Nat → α) f,
      Clips W H w h x y (fun i j => u (i * w + j)) f
        (putRows (W * H) W (y * W + x) w (fun i j => u (i * w + j)) f h)) :
    Covers w h x y p q := by
  obtain ⟨a, a', differ⟩ := exists_pair_ne α
  by_contra out
  have clip := (clips (fun _ => a) (fun _ => a') p q hp hq).2 out
  rw [putRows_const (cell_lt hp hq) lt here] at clip
  exact differ clip

/-- Where every picture is clipped it fits. -/
theorem fits_of_clips {x y : Nat} (some : 0 < h) (left : x < W) (up : y < H)
    (clips : ∀ (u : Nat → α) f,
      Clips W H w h x y (fun i j => u (i * w + j)) f
        (putRows (W * H) W (y * W + x) w (fun i j => u (i * w + j)) f h)) :
    Fits W H w h x y := by
  refine ⟨Int.natCast_nonneg x, by omega, Int.natCast_nonneg y, by omega, ?_⟩
  by_contra side
  have wide : W < x + w := by omega
  have bottom : y + 1 < H := by omega
  have width : 0 < W := Nat.zero_lt_of_lt left
  by_cases start : x = 0
  · -- the last row runs into the one below the picture
    have short : y + h < H := by omega
    have here : InRow W (y * W + x) w (h - 1) ((y + h) * W + 0) := by
      rw [inRow_iff, show y + h = y + (h - 1) + 1 by omega, Nat.succ_mul]
      omega
    have covers := covers_of_clips width short (Nat.sub_lt some Nat.one_pos) here clips
    unfold Covers at covers
    omega
  · -- the first row runs into the cells to the left of the picture
    have here : InRow W (y * W + x) w 0 ((y + 1) * W + 0) := by
      rw [inRow_iff, Nat.add_zero, Nat.succ_mul]
      omega
    have covers := covers_of_clips width bottom some here clips
    unfold Covers at covers
    omega

end Converse

/-- **When every picture is clipped**: it lies behind the array, or it fits. -/
theorem putRows_clips_iff [Nontrivial α] {W H w h b M : Nat} {x y : Int} (wide : 0 < w) (some : 0 < h)
    (place : (b : Int) ≡ y * W + x [ZMOD M]) (noWrap : b + (h - 1) * W + (w - 1) < M) (area : W * H ≤ M) :
    (∀ (u : Nat → α) f,
        Clips W H w h x y (fun i j => u (i * w + j)) f
          (putRows (W * H) W b w (fun i j => u (i * w + j)) f h)) ↔
      W * H ≤ b ∨ Fits W H w h x y := by
  constructor
  · intro clips
    rcases Nat.lt_or_ge b (W * H) with inside | behind
    · obtain ⟨X, Y, rfl, rfl, left, up, rfl⟩ := first_cell_of_clips some wide inside clips
      exact .inr (fits_of_clips some left up clips)
    · exact .inl behind
  · rintro (behind | fits) u f
    · intro p q hp hq
      refine ⟨fun covers => absurd covers (not_covers_behind place noWrap area behind hp hq), fun _ => ?_⟩
      refine putRows_of_none fun i _ here => ?_
      have cell := cell_lt hp hq
      unfold InRow at here
      omega
    · obtain ⟨X, rfl⟩ := Int.eq_ofNat_of_zero_le fits.1
      obtain ⟨Y, rfl⟩ := Int.eq_ofNat_of_zero_le fits.2.2.1
      have cell : Y * W + X < W * H := cell_lt (Int.ofNat_lt.1 fits.2.1) (Int.ofNat_lt.1 fits.2.2.2.1)
      obtain rfl : b = Y * W + X := eq_of_modEq (by push_cast; exact place) (by omega) (by omega)
      exact putRows_clips fits

end Lavoro.Lib
