import Mathlib.Algebra.Group.Nat.Defs

/-!
# Rounding a number to its leading binary digits

`roundNearest p x` is `x` rounded to `p` significant binary digits, to the nearest such number and
to the even one of two: the result of an addition or a conversion in a floating-point format of
precision `p`, for sums that are integers and in range.
-/

namespace Lavoro.Lib

/-- `x` to `p` binary digits. -/
def roundNearest (p x : Nat) : Nat :=
  let unit := 2 ^ (x.log2 + 1 - p)
  let rest := x % unit
  if 2 * rest < unit ∨ (2 * rest = unit ∧ x / unit % 2 = 0) then x - rest else x - rest + unit

/-- Few digits are kept as they are. -/
theorem roundNearest_of_lt {p x : Nat} (few : x < 2 ^ (p + 1)) : roundNearest (p + 1) x = x := by
  have exponent : x.log2 + 1 - (p + 1) = 0 := by
    by_cases zero : x = 0
    · simp [zero]
    · have := (Nat.log2_lt zero).2 few
      omega
  simp [roundNearest, exponent, Nat.mod_one]

/-- **The error** is at most one unit in the last digit. -/
theorem roundNearest_le (p x : Nat) : roundNearest (p + 1) x ≤ x + x / 2 ^ p := by
  by_cases few : x < 2 ^ (p + 1)
  · rw [roundNearest_of_lt few]
    exact Nat.le_add_right _ _
  · have positive : 0 < 2 ^ (p + 1) := Nat.two_pow_pos _
    have nonzero : x ≠ 0 := by omega
    have long : p + 1 ≤ x.log2 := by
      apply Classical.byContradiction
      intro short
      exact few ((Nat.log2_lt nonzero).1 (by omega))
    have split : 2 ^ (x.log2 + 1 - (p + 1)) * 2 ^ p = 2 ^ x.log2 := by
      rw [← Nat.pow_add]
      congr 1
      omega
    have lead : 2 ^ x.log2 ≤ x := Nat.log2_self_le nonzero
    have unit : 2 ^ (x.log2 + 1 - (p + 1)) ≤ x / 2 ^ p := by
      rw [Nat.le_div_iff_mul_le (Nat.two_pow_pos _), split]
      exact lead
    have rest : x % 2 ^ (x.log2 + 1 - (p + 1)) ≤ x := Nat.mod_le _ _
    simp only [roundNearest]
    split
    · omega
    · omega

end Lavoro.Lib
