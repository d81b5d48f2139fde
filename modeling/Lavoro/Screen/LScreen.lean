import Lavoro.Efi.Base
import Lavoro.Lib.Raster

/-!
# Screens (`lscreen.hpp`)

A screen has a width and a height, both `int`, and an array of `W * H` cells. All arithmetic
is that of 32-bit words; an access outside the array is recorded in `outside`.
-/

namespace Lavoro.Screen

/-- `unsigned *Buffer`: the cells of an array of `size`. -/
structure Pixels where
  size : Nat
  cells : Nat → BitVec 32
  outside : Bool

/-- `new unsigned[n]`, which does not initialise the cells; nothing is allocated for a
negative `n`. -/
def Pixels.alloc (n : BitVec 32) (cells : Nat → BitVec 32) : Pixels :=
  { size := n.toInt.toNat, cells, outside := false }

/-- `Buffer[k] = value`. -/
def Pixels.put (p : Pixels) (k : Nat) (value : BitVec 32) : Pixels :=
  if k < p.size then { p with cells := fun i => if i = k then value else p.cells i }
  else { p with outside := true }

/-- The array with `m` cells from `k` on overwritten. -/
def Pixels.fill (p : Pixels) (k m : Nat) (value : Nat → BitVec 32) : Pixels :=
  { p with cells := fun i => if k ≤ i ∧ i < k + m then value (i - k) else p.cells i }

theorem Pixels.fill_zero (p : Pixels) (k : Nat) (value : Nat → BitVec 32) : p.fill k 0 value = p := by
  have none : ∀ i, ¬ (k ≤ i ∧ i < k + 0) := by
    intro i
    omega
  simp only [fill, none, if_false]

/-- The first of the cells, and the others. -/
theorem Pixels.fill_succ {p : Pixels} {k : Nat} (m : Nat) (value : Nat → BitVec 32) (inside : k < p.size) :
    (p.put k (value 0)).fill (k + 1) m (fun j => value (j + 1)) = p.fill k (m + 1) value := by
  unfold put fill
  rw [if_pos inside]
  congr 1
  funext i
  simp only
  by_cases here : i = k
  · subst here
    rw [if_neg (by omega), if_pos rfl, if_pos (by omega), Nat.sub_self]
  · rw [if_neg here]
    by_cases later : k + 1 ≤ i ∧ i < k + 1 + m
    · rw [if_pos later, if_pos (by omega), show i - (k + 1) + 1 = i - k by omega]
    · rw [if_neg later, if_neg (by omega)]

/-- `Buffer[k]` is accessed where there is no cell. -/
def Pixels.trap (p : Pixels) : Pixels := { p with outside := true }

structure LScreen where
  w : BitVec 32
  h : BitVec 32
  pixels : Pixels

/-- `GetBuffer(x, y)`; none at a negative index. -/
def LScreen.getBuffer (s : LScreen) (x y : BitVec 32) : Option (BitVec 32) :=
  let k := y * s.w + x
  if k.slt (s.w * s.h) then
    if k.msb then none else some (s.pixels.cells k.toNat)
  else some (-1)

/-- `SetBuffer(x, y, value)`. -/
def LScreen.setBuffer (s : LScreen) (x y value : BitVec 32) : LScreen :=
  let k := y * s.w + x
  if k.slt (s.w * s.h) then
    { s with pixels := if k.msb then s.pixels.trap else s.pixels.put k.toNat value }
  else s

/-! ## Which cell is accessed -/

section Index

variable {n m : Nat} {k : BitVec 32}

theorem toNat_word (small : n < 2147483648) : (BitVec.ofNat 32 n).toNat = n := by
  rw [BitVec.toNat_ofNat]
  omega

theorem msb_word (small : n < 2147483648) : (BitVec.ofNat 32 n).msb = false := by
  rw [BitVec.msb_eq_false_iff_two_mul_lt, toNat_word small]
  omega

theorem toInt_word (small : n < 2147483648) : (BitVec.ofNat 32 n).toInt = n := by
  rw [BitVec.toInt_eq_toNat_of_msb (msb_word small), toNat_word small]

/-- A negative index passes the test. -/
theorem slt_of_negative (small : n < 2147483648) (negative : k.msb = true) :
    k.slt (BitVec.ofNat 32 n) = true := by
  rw [BitVec.slt_iff_toInt_lt, toInt_word small]
  have below := BitVec.toInt_neg_of_msb_true negative
  omega

theorem slt_iff_of_positive (small : n < 2147483648) (positive : k.msb = false) :
    k.slt (BitVec.ofNat 32 n) = true ↔ k.toNat < n := by
  rw [BitVec.slt_iff_toInt_lt, toInt_word small, BitVec.toInt_eq_toNat_of_msb positive]
  exact Int.ofNat_lt

theorem sdiv_word (hn : n < 2147483648) (hm : m < 2147483648) :
    (BitVec.ofNat 32 n).sdiv (BitVec.ofNat 32 m) = BitVec.ofNat 32 (n / m) := by
  have quotient : n / m < 2147483648 := Nat.lt_of_le_of_lt (Nat.div_le_self n m) hn
  rw [BitVec.sdiv_eq, msb_word hn, msb_word hm]
  apply BitVec.eq_of_toNat_eq
  show (BitVec.ofNat 32 n / BitVec.ofNat 32 m).toNat = _
  rw [BitVec.toNat_udiv, toNat_word hn, toNat_word hm, toNat_word quotient]

theorem slt_word (hn : n < 2147483648) (hm : m < 2147483648) :
    (BitVec.ofNat 32 n).slt (BitVec.ofNat 32 m) = true ↔ n < m := by
  rw [slt_iff_of_positive hm (msb_word hn), toNat_word hn]

/-- A difference that is not negative. -/
theorem sub_word (le : m ≤ n) (small : n < 2147483648) :
    BitVec.ofNat 32 n - BitVec.ofNat 32 m = BitVec.ofNat 32 (n - m) := by
  apply BitVec.eq_of_toNat_eq
  rw [BitVec.toNat_sub, toNat_word small, toNat_word (n := m) (by omega), toNat_word (n := n - m) (by omega)]
  omega

theorem add_sub_word (n m : Nat) : BitVec.ofNat 32 (n + m) - BitVec.ofNat 32 n = BitVec.ofNat 32 m := by
  rw [BitVec.ofNat_add, BitVec.add_comm]
  exact BitVec.add_sub_cancel _ _

theorem half_word (small : n < 2147483648) : (BitVec.ofNat 32 n).sshiftRight 1 = BitVec.ofNat 32 (n / 2) := by
  have half := Nat.div_le_self n 2
  apply BitVec.eq_of_toNat_eq
  rw [BitVec.sshiftRight_eq_of_msb_false (msb_word small), BitVec.toNat_ushiftRight, toNat_word small,
    toNat_word (Nat.lt_of_le_of_lt half small)]
  exact Nat.shiftRight_eq_div_pow n 1

/-- A word that is not negative has not overflowed. -/
theorem small_of_nonneg (bound : n < 4294967296) (nonneg : 0 ≤ (BitVec.ofNat 32 n).toInt) : n < 2147483648 := by
  by_contra large
  have negative : (BitVec.ofNat 32 n).toInt < 0 := by
    apply BitVec.toInt_neg_of_msb_true
    rw [BitVec.msb_eq_true_iff_two_mul_ge, BitVec.toNat_ofNat, Nat.mod_eq_of_lt bound]
    omega
  omega

end Index

/-- The cell of a point inside. -/
theorem getBuffer_inside {pixels : Pixels} {w h x y : Nat} (size : w * h < 2147483648) (left : x < w)
    (up : y < h) :
    (LScreen.mk (BitVec.ofNat 32 w) (BitVec.ofNat 32 h) pixels).getBuffer (BitVec.ofNat 32 x)
      (BitVec.ofNat 32 y) = some (pixels.cells (y * w + x)) := by
  have index : y * w + x < w * h := Lib.cell_lt left up
  -- no operation of the index overflows
  have k : BitVec.ofNat 32 y * BitVec.ofNat 32 w + BitVec.ofNat 32 x = BitVec.ofNat 32 (y * w + x) := by
    rw [BitVec.ofNat_add, BitVec.ofNat_mul]
  have all : BitVec.ofNat 32 w * BitVec.ofNat 32 h = BitVec.ofNat 32 (w * h) := by
    rw [BitVec.ofNat_mul]
  have small : y * w + x < 2147483648 := by omega
  have before : (BitVec.ofNat 32 (y * w + x)).slt (BitVec.ofNat 32 (w * h)) = true := by
    rw [slt_iff_of_positive size (msb_word small), toNat_word small]
    exact index
  unfold LScreen.getBuffer
  simp only [k, all, before, msb_word small, toNat_word small, if_true, if_false, Bool.false_eq_true]

end Lavoro.Screen
