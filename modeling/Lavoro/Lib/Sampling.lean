import Mathlib.Algebra.Order.Floor.Div
import Mathlib.Data.Finset.Card
import Mathlib.GroupTheory.GroupAction.Ring
import Mathlib.Order.Bounds.Basic

/-!
# Sampling with rounding up

`place r d j` is where the `j`-th of some samples comes to lie when their number is scaled by `r / d`:
`j * r / d`, rounded up. With `r ≤ d` no place below that of the end is left out, and each has a last
sample (`exists_last`); with `d < r` some place always is (`exists_gap`).
-/

namespace Lavoro.Lib

/-- `j * r / d`, rounded up. -/
def place (r d j : Nat) : Nat := j * r ⌈/⌉ d

section Place

variable {r d j k x n : Nat}

theorem place_le_iff (pos : 0 < d) : place r d j ≤ x ↔ j * r ≤ d * x := ceilDiv_le_iff_le_mul pos

theorem lt_place_iff (pos : 0 < d) : x < place r d j ↔ d * x < j * r := by
  rw [← Nat.not_le, place_le_iff pos, Nat.not_le]

@[simp] theorem place_zero (r d : Nat) : place r d 0 = 0 := by
  rw [place, Nat.zero_mul, zero_ceilDiv]

theorem place_mono (pos : 0 < d) (le : j ≤ k) : place r d j ≤ place r d k := by
  rw [place_le_iff pos]
  calc j * r ≤ k * r := Nat.mul_le_mul_right r le
    _ ≤ d * place r d k := (place_le_iff pos).1 (Nat.le_refl _)

/-- Of two places the earlier one belongs to an earlier sample. -/
theorem lt_of_place_lt (pos : 0 < d) (lt : place r d j < place r d k) : j < k := by
  rcases Nat.lt_or_ge j k with before | behind
  · exact before
  · exact absurd (place_mono pos behind) (Nat.not_le_of_lt lt)

theorem place_self (pos : 0 < d) (j : Nat) : place d d j = j := by
  rw [place, Nat.mul_comm]
  exact smul_ceilDiv pos j

theorem place_eq_zero_iff (pos : 0 < d) (some : 0 < r) : place r d j = 0 ↔ j = 0 := by
  rw [← Nat.le_zero, place_le_iff pos, Nat.mul_zero, Nat.le_zero, Nat.mul_eq_zero]
  omega

/-! ## Fewer samples -/

/-- The next sample lies at most one place on. -/
theorem place_succ_le (pos : 0 < d) (shrinks : r ≤ d) (j : Nat) : place r d (j + 1) ≤ place r d j + 1 := by
  rw [place_le_iff pos, Nat.succ_mul, Nat.mul_succ]
  have here := (place_le_iff (j := j) (r := r) pos).1 (Nat.le_refl _)
  omega

theorem place_le (pos : 0 < d) (shrinks : r ≤ d) (j : Nat) : place r d j ≤ j := by
  rw [place_le_iff pos, Nat.mul_comm]
  exact Nat.mul_le_mul_right j shrinks

/-- **Every place has a last sample.** -/
theorem exists_last (pos : 0 < d) (shrinks : r ≤ d) (below : x < place r d n) :
    ∃ j, IsGreatest {k | k < n ∧ place r d k = x} j := by
  induction n with
  | zero => simp at below
  | succ n ih =>
    rcases Nat.lt_or_ge x (place r d n) with earlier | here
    · obtain ⟨j, ⟨lt, at'⟩, last⟩ := ih earlier
      refine ⟨j, ⟨Nat.lt_succ_of_lt lt, at'⟩, ?_⟩
      rintro k ⟨_, same⟩
      have before : place r d k < place r d n := by rwa [same]
      apply last
      exact ⟨lt_of_place_lt pos before, same⟩
    · have step := place_succ_le pos shrinks n
      refine ⟨n, ⟨Nat.lt_succ_self n, by omega⟩, ?_⟩
      rintro k ⟨lt, -⟩
      exact Nat.le_of_lt_succ lt

/-! ## More samples -/

/-- Every sample lies behind the one before. -/
theorem place_lt_place (pos : 0 < d) (grows : d ≤ r) (lt : j < k) : place r d j < place r d k := by
  rw [lt_place_iff pos]
  have here : d * place r d j < j * r + d := by
    by_contra far
    rw [Nat.not_lt] at far
    cases at' : place r d j with
    | zero =>
      rw [at', Nat.mul_zero] at far
      omega
    | succ x =>
      have tight : x < place r d j := by omega
      rw [lt_place_iff pos] at tight
      rw [at', Nat.mul_succ] at far
      omega
  calc d * place r d j < j * r + d := here
    _ ≤ j * r + r := by omega
    _ = (j + 1) * r := (Nat.succ_mul j r).symm
    _ ≤ k * r := Nat.mul_le_mul_right r lt

theorem place_injective (pos : 0 < d) (grows : d ≤ r) (same : place r d j = place r d k) : j = k := by
  rcases Nat.lt_trichotomy j k with lt | eq | gt
  · have before := place_lt_place pos grows lt
    omega
  · exact eq
  · have behind := place_lt_place pos grows gt
    omega

/-- There are more places than samples. -/
theorem lt_place_of_grows (pos : 0 < d) (grows : d < r) (some : 0 < n) : n < place r d n := by
  rw [lt_place_iff pos, Nat.mul_comm]
  exact Nat.mul_lt_mul_of_pos_left grows some

/-- **Some place is left out.** -/
theorem exists_gap (pos : 0 < d) (grows : d < r) (some : 0 < n) :
    ∃ x < place r d n, ∀ j < n, place r d j ≠ x := by
  have few : ((Finset.range n).image (place r d)).card < (Finset.range (place r d n)).card := by
    rw [Finset.card_range]
    calc ((Finset.range n).image (place r d)).card ≤ (Finset.range n).card := Finset.card_image_le
      _ = n := Finset.card_range n
      _ < place r d n := lt_place_of_grows pos grows some
  obtain ⟨x, inside, out⟩ := Finset.exists_mem_notMem_of_card_lt_card few
  refine ⟨x, Finset.mem_range.1 inside, fun j lt at' => out ?_⟩
  rw [← at']
  exact Finset.mem_image_of_mem _ (Finset.mem_range.2 lt)

end Place

end Lavoro.Lib
