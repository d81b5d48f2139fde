import Lavoro.Efi.Str
import Mathlib.Algebra.Group.Nat.Defs

/-!
# Numerals (`print.c`)

`ValueToString` collects the digits of a value, the last one first, in an array of 40 and writes them out the other way
round, with a comma in front of every three of them if it is asked to; `ValueToHex` does the same in an array of 30 with hexadecimal
digits.
-/

namespace Lavoro

/-- The loop that collects digits while there is a value, in an array with `room` for so many; none where it writes behind the
end of the array. -/
def collectDigits (base : Nat) (digit : Nat → UInt16) : Nat → Nat → Option Str16
  | 0, v => if v = 0 then some [] else none
  | room + 1, v => if v = 0 then some [] else (collectDigits base digit room (v / base)).map (digit (v % base) :: ·)

/-- `(CHAR8)r + '0'`. -/
def decimalDigit (r : Nat) : UInt16 := UInt16.ofNat (r + 48)

/-- `Hex[r]`. -/
def hexDigit (r : Nat) : UInt16 := if r < 10 then UInt16.ofNat (r + 48) else UInt16.ofNat (r + 55)

/-- The loop that writes the digits, a comma in front of one whenever `c` has come down to 0. -/
def putDigits (c : Nat) : Str16 → Str16
  | [] => []
  | digit :: rest => if c - 1 = 0 then 44 :: digit :: putDigits 3 rest else digit :: putDigits (c - 1) rest

/-- `ca[(p1 - str) % 3]`. -/
def commaFirst (length : Nat) : Nat := [3, 1, 2].getD (length % 3) 0

/-- `ValueToString(Buffer, Comma, v)`. -/
def valueToString (comma : Bool) (v : BitVec 64) : Option Str16 :=
  if v = 0 then some [48]
  else
    let value := if v.slt 0 then -v else v
    (collectDigits 10 decimalDigit 40 value.toNat).map fun str =>
      (if v.slt 0 then [45] else []) ++ putDigits ((if comma then commaFirst str.length else 999) + 1) str.reverse

/-- `ValueToHex(Buffer, v)`. -/
def valueToHex (v : BitVec 64) : Option Str16 :=
  if v = 0 then some [48] else (collectDigits 16 hexDigit 30 v.toNat).map List.reverse

/-- The numeral of an integer. -/
def numeral (v : Int) : Str16 := (if v < 0 then [45] else []) ++ decimal v.natAbs

/-- The digits in threes, except the first ones, with a comma in front of each three. -/
def Grouped (digits text : Str16) : Prop :=
  ∃ (head : Str16) (groups : List Str16), digits = head ++ groups.flatten ∧ 1 ≤ head.length ∧ head.length ≤ 3 ∧ (∀ g ∈ groups, g.length = 3) ∧
    text = head ++ groups.flatMap (44 :: ·)

/-! ## The digits -/

theorem decimalDigit_eq {r : Nat} (lt : r < 10) : decimalDigit r = UInt16.ofNat r.digitChar.toNat := by
  rw [Nat.toNat_digitChar_of_lt_ten lt, Nat.add_comm]
  rfl

theorem collectDigits_zero (base : Nat) (digit : Nat → UInt16) (room : Nat) : collectDigits base digit room 0 = some [] := by
  cases room <;> rfl

/-- The digits that are collected are those of the numeral, the last one first. -/
theorem collectDigits_eq {base : Nat} (large : 1 < base) {digit : Nat → UInt16} {unit : Char → UInt16}
    (same : ∀ r, r < base → digit r = unit r.digitChar) {room v : Nat} (positive : 0 < v) (fits : v < base ^ room) :
    collectDigits base digit room v = some ((Nat.toDigits base v).map unit).reverse := by
  induction room generalizing v with
  | zero =>
    rw [Nat.pow_zero] at fits
    omega
  | succ room ih =>
    have last := same (v % base) (Nat.mod_lt v (by omega))
    rw [collectDigits, if_neg (by omega), last]
    by_cases single : v < base
    · rw [Nat.div_eq_of_lt single, collectDigits_zero, Nat.mod_eq_of_lt single, Nat.toDigits_of_lt_base single]
      rfl
    · have more : base ≤ v := Nat.le_of_not_lt single
      have before := ih (Nat.div_pos more (by omega)) (Nat.div_lt_of_lt_mul (by rwa [Nat.mul_comm, ← Nat.pow_succ]))
      rw [before, Nat.toDigits_of_base_le large more, List.map_append, List.reverse_append]
      rfl

theorem length_decimal_le {n k : Nat} (positive : 0 < k) (lt : n < 10 ^ k) : (decimal n).length ≤ k := by
  rw [decimal, List.length_map]
  exact (Nat.length_toDigits_le_iff (by decide) positive).2 lt

theorem length_decimal_pos (n : Nat) : 0 < (decimal n).length := by
  rw [decimal, List.length_map]
  exact Nat.length_toDigits_pos

/-! ## The commas -/

variable {digits : Str16} {c : Nat}

/-- Where `c` does not come down to 0 there is no comma. -/
theorem putDigits_plain (few : digits.length < c) : putDigits c digits = digits := by
  induction digits generalizing c with
  | nil => rfl
  | cons digit rest ih =>
    rw [List.length_cons] at few
    rw [putDigits, if_neg (by omega), ih (by omega)]

/-- As many digits as `c` allows, and the others. -/
theorem putDigits_first {k : Nat} (le : k ≤ digits.length) :
    putDigits (k + 1) digits = digits.take k ++ putDigits 1 (digits.drop k) := by
  induction k generalizing digits with
  | zero => rfl
  | succ k ih =>
    cases digits with
    | nil => cases le
    | cons digit rest =>
      have later := ih (Nat.le_of_succ_le_succ le)
      rw [putDigits, if_neg (by omega), Nat.add_sub_cancel, later]
      rfl

/-- Groups of three, a comma in front of each. -/
theorem putDigits_groups {n : Nat} (count : digits.length = 3 * n) :
    ∃ groups : List Str16, digits = groups.flatten ∧ (∀ g ∈ groups, g.length = 3) ∧ putDigits 1 digits = groups.flatMap (44 :: ·) := by
  induction n generalizing digits with
  | zero =>
    obtain rfl := List.eq_nil_of_length_eq_zero count
    exact ⟨[], rfl, fun g mem => absurd mem List.not_mem_nil, rfl⟩
  | succ n ih =>
    match digits, count with
    | x :: y :: z :: rest, count =>
      simp only [List.length_cons] at count
      have fewer : rest.length = 3 * n := by omega
      obtain ⟨groups, same, threes, text⟩ := ih fewer
      refine ⟨[x, y, z] :: groups, by rw [same]; rfl, List.forall_mem_cons.2 ⟨rfl, threes⟩, ?_⟩
      rw [List.flatMap_cons, ← text]
      rfl

/-- **The digits come in threes**, from the right. -/
theorem putDigits_grouped (some' : digits ≠ []) : Grouped digits (putDigits (commaFirst digits.length + 1) digits) := by
  have positive := List.length_pos_iff.2 some'
  obtain ⟨low, high, threes⟩ : 1 ≤ commaFirst digits.length ∧ commaFirst digits.length ≤ 3 ∧
      commaFirst digits.length % 3 = digits.length % 3 := by
    have cases : digits.length % 3 = 0 ∨ digits.length % 3 = 1 ∨ digits.length % 3 = 2 := by omega
    rcases cases with h | h | h <;> rw [commaFirst, h] <;> decide
  have le : commaFirst digits.length ≤ digits.length := by omega
  have others : (digits.drop (commaFirst digits.length)).length = 3 * ((digits.length - commaFirst digits.length) / 3) := by
    rw [List.length_drop]
    omega
  obtain ⟨groups, rest, groupsOfThree, text⟩ := putDigits_groups others
  refine ⟨digits.take (commaFirst digits.length), groups, ?_, ?_, ?_, groupsOfThree, ?_⟩
  · rw [← rest, List.take_append_drop]
  · rw [List.length_take]
    omega
  · rw [List.length_take]
    omega
  · rw [putDigits_first le, text]

theorem Grouped.length_le {text : Str16} (h : Grouped digits text) : text.length ≤ 2 * digits.length := by
  obtain ⟨head, groups, rfl, low, -, threes, rfl⟩ := h
  have commas : (groups.flatMap (44 :: ·)).length ≤ 2 * groups.flatten.length := by
    clear low
    induction groups with
    | nil => exact Nat.zero_le _
    | cons g groups ih =>
      obtain ⟨three, others⟩ := List.forall_mem_cons.1 threes
      have later := ih others
      simp only [List.flatMap_cons, List.flatten_cons, List.length_append, List.length_cons]
      omega
  simp only [List.length_append]
  omega

/-! ## The numerals -/

/-- The value whose digits are collected. -/
theorem magnitude (v : BitVec 64) : (if v.slt 0 then -v else v).toNat = v.toInt.natAbs ∧ (v.slt 0 = true ↔ v.toInt < 0) := by
  have sign : v.slt 0 = true ↔ v.toInt < 0 := by
    rw [BitVec.slt_iff_toInt_lt]
    rfl
  refine ⟨?_, sign⟩
  have bound := v.isLt
  have int := BitVec.toInt_eq_toNat_cond v
  by_cases negative : v.slt 0 = true
  · have below := sign.1 negative
    rw [if_pos negative, BitVec.toNat_neg]
    split at int
    · omega
    · omega
  · have above : ¬ v.toInt < 0 := fun lt => negative (sign.2 lt)
    rw [if_neg negative]
    split at int
    · omega
    · omega

/-- **`ValueToString`** writes the numeral of every value, with its digits in threes if it is asked to, and inside its
arrays. -/
theorem valueToString_numeral (v : BitVec 64) :
    valueToString false v = some (numeral v.toInt) ∧
      ∃ text, Grouped (decimal v.toInt.natAbs) text ∧
        valueToString true v = some ((if v.toInt < 0 then [45] else []) ++ text) := by
  by_cases zero : v = 0
  · subst zero
    refine ⟨rfl, [48], ⟨[48], [], rfl, Nat.le_refl _, by decide, fun g mem => absurd mem List.not_mem_nil, rfl⟩, rfl⟩
  · obtain ⟨value, sign⟩ := magnitude v
    have bound := v.toInt_lt
    have bound' := v.le_toInt
    have positive : 0 < v.toInt.natAbs := by
      rw [Int.natAbs_pos]
      exact fun none => zero (BitVec.eq_of_toInt_eq none)
    have small : v.toInt.natAbs < 10 ^ 19 := by omega
    have collected : collectDigits 10 decimalDigit 40 v.toInt.natAbs = some (decimal v.toInt.natAbs).reverse :=
      collectDigits_eq (by decide) (fun r => decimalDigit_eq) positive (Nat.lt_trans small (by decide))
    have some' : decimal v.toInt.natAbs ≠ [] := List.ne_nil_of_length_pos (length_decimal_pos _)
    have few := length_decimal_le (by decide) small
    refine ⟨?_, _, putDigits_grouped some', ?_⟩
    · simp only [valueToString, zero, if_false, value, collected, Option.map_some, List.reverse_reverse]
      have plain : (decimal v.toInt.natAbs).length < 999 + 1 := by omega
      simp only [Bool.false_eq_true, if_false, putDigits_plain plain, numeral, sign]
    · simp only [valueToString, zero, if_false, value, collected, Option.map_some, List.reverse_reverse, if_true,
        List.length_reverse]
      simp only [sign]

/-- Whatever it writes is no longer than the scratch of an item. -/
theorem valueToString_length {comma : Bool} {v : BitVec 64} {text : Str16} (made : valueToString comma v = some text) :
    text.length < 100 := by
  obtain ⟨plain, grouped, threes, commas⟩ := valueToString_numeral v
  have small : v.toInt.natAbs < 10 ^ 19 := by
    have bound := v.toInt_lt
    have bound' := v.le_toInt
    omega
  have digits := length_decimal_le (by decide) small
  have sign : (if v.toInt < 0 then [45] else [] : Str16).length ≤ 1 := by
    split
    · exact Nat.le_refl 1
    · exact Nat.zero_le 1
  cases comma with
  | false =>
    obtain rfl := Option.some.inj (plain.symm.trans made)
    rw [numeral, List.length_append]
    omega
  | true =>
    obtain rfl := Option.some.inj (commas.symm.trans made)
    have length := threes.length_le
    rw [List.length_append]
    omega

theorem hexDigit_eq : ∀ r, r < 16 → hexDigit r = UInt16.ofNat r.digitChar.toUpper.toNat := by decide

/-- `ValueToHex` writes the numeral with upper-case digits. -/
theorem valueToHex_eq (v : BitVec 64) :
    valueToHex v = some ((Nat.toDigits 16 v.toNat).map fun c => UInt16.ofNat c.toUpper.toNat) := by
  by_cases zero : v = 0
  · subst zero
    rfl
  · have positive : 0 < v.toNat := Nat.pos_of_ne_zero fun none => zero (BitVec.eq_of_toNat_eq none)
    have collected : collectDigits 16 hexDigit 30 v.toNat =
        some ((Nat.toDigits 16 v.toNat).map fun c => UInt16.ofNat c.toUpper.toNat).reverse :=
      collectDigits_eq (by decide) hexDigit_eq positive (Nat.lt_trans v.isLt (by decide))
    rw [valueToHex, if_neg zero, collected, Option.map_some, List.reverse_reverse]

theorem valueToHex_length {v : BitVec 64} {text : Str16} (made : valueToHex v = some text) : text.length ≤ 16 := by
  obtain rfl := Option.some.inj ((valueToHex_eq v).symm.trans made)
  rw [List.length_map]
  exact (Nat.length_toDigits_le_iff (by decide) (by decide)).2 (Nat.lt_of_lt_of_eq v.isLt (by decide))

/-- **A number is printed as it is**, also the one whose sign cannot be changed; `Atoi` reads it back, and it fits into the
scratch of an item, with what stands in front of a pointer. -/
theorem numbers_exact (v : BitVec 64) :
    valueToString false v = some (numeral v.toInt) ∧
      (∃ text, Grouped (decimal v.toInt.natAbs) text ∧
        valueToString true v = some ((if v.toInt < 0 then [45] else []) ++ text)) ∧
      valueToHex v = some ((Nat.toDigits 16 v.toNat).map fun c => UInt16.ofNat c.toUpper.toNat) ∧
      (0 ≤ v.toInt → atoi (numeral v.toInt) = v.toInt) ∧
      (∀ comma text, valueToString comma v = some text → text.length < 100) ∧
      ∀ text, valueToHex v = some text → ([48, 120] ++ text).length < 100 := by
  obtain ⟨plain, grouped⟩ := valueToString_numeral v
  refine ⟨plain, grouped, valueToHex_eq v, fun positive => ?_, fun comma text made => valueToString_length made,
    fun text made => ?_⟩
  · rw [numeral, if_neg (Int.not_lt.2 positive), List.nil_append, atoi_decimal]
    exact Int.natAbs_of_nonneg positive
  · have length := valueToHex_length made
    rw [List.length_append]
    exact Nat.lt_of_le_of_lt (Nat.add_le_add_left length 2) (by decide)

end Lavoro
