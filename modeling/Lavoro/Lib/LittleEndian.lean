import Mathlib.Algebra.Group.Nat.Defs

/-!
# Little-endian numbers

`littleEndian` is the value of a sequence of bytes with the lowest first, `bytesOf n` the
`n` bytes of a value.
-/

namespace Lavoro.Lib

/-- The value of bytes, the lowest first. -/
def littleEndian : List UInt8 → Nat
  | [] => 0
  | b :: more => b.toNat + 256 * littleEndian more

/-- The lowest `n` bytes of a value. -/
def bytesOf : Nat → Nat → List UInt8
  | 0, _ => []
  | n + 1, v => UInt8.ofNat (v % 256) :: bytesOf n (v / 256)

@[simp] theorem length_bytesOf (n v : Nat) : (bytesOf n v).length = n := by
  induction n generalizing v with
  | zero => rfl
  | succ n ih => rw [bytesOf, List.length_cons, ih]

/-- Bytes that hold the value give it back. -/
theorem littleEndian_bytesOf {n v : Nat} (fits : v < 256 ^ n) : littleEndian (bytesOf n v) = v := by
  induction n generalizing v with
  | zero =>
    obtain rfl : v = 0 := by simpa using fits
    rfl
  | succ n ih =>
    have high : v / 256 < 256 ^ n := by
      rw [Nat.pow_succ] at fits
      exact Nat.div_lt_of_lt_mul (by rwa [Nat.mul_comm])
    have low : (UInt8.ofNat (v % 256)).toNat = v % 256 := by
      rw [UInt8.toNat_ofNat']
      omega
    rw [bytesOf, littleEndian, ih high, low]
    omega

end Lavoro.Lib
