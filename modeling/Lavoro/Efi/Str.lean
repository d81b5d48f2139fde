import Lavoro.Efi.Base

/-!
# Numbers as strings

The explorer names the disks by their numbers (`UnicodeSPrint` with `%d`) and finds the
chosen one with the library's `Atoi`.
-/

namespace Lavoro

/-- `%d` of a number that is not negative. -/
def decimal (n : Nat) : Str16 := (Nat.toDigits 10 n).map fun c => UInt16.ofNat c.toNat

/-- The loop of `Atoi` over the digits, with `u` collected so far. -/
def atoiDigits (u : Nat) : Str16 → Nat
  | [] => u
  | c :: rest => if 48 ≤ c.toNat ∧ c.toNat ≤ 57 then atoiDigits (u * 10 + (c.toNat - 48)) rest else u

/-- `Atoi(str)`. -/
def atoi (str : Str16) : Nat := atoiDigits 0 (str.dropWhile (· = 32))

theorem isDigit_bounds {c : Char} (h : c.isDigit = true) : 48 ≤ c.toNat ∧ c.toNat ≤ 57 := by
  simp only [Char.isDigit, Bool.and_eq_true, decide_eq_true_eq] at h
  exact h

theorem toNat_unit {c : Char} (h : c.isDigit = true) : (UInt16.ofNat c.toNat).toNat = c.toNat := by
  have bounds := isDigit_bounds h
  rw [UInt16.toNat_ofNat']
  omega

theorem atoiDigits_eq {cs : List Char} (digits : ∀ c ∈ cs, c.isDigit = true) (u : Nat) :
    atoiDigits u (cs.map fun c => UInt16.ofNat c.toNat) = Nat.ofDigitChars 10 cs u := by
  induction cs generalizing u with
  | nil => rw [Nat.ofDigitChars_nil, List.map_nil, atoiDigits]
  | cons c cs ih =>
    have here := digits c List.mem_cons_self
    have others := ih (fun x mem => digits x (List.mem_cons_of_mem _ mem))
    rw [List.map_cons, atoiDigits, toNat_unit here, if_pos (isDigit_bounds here), others,
      Nat.ofDigitChars_cons, Nat.mul_comm u]
    rfl

theorem isDigit_toDigits (n : Nat) : ∀ c ∈ Nat.toDigits 10 n, c.isDigit = true :=
  fun _ mem => Nat.isDigit_of_mem_toDigits (by decide) (by decide) mem

/-- A decimal number starts with a digit, not with a blank. -/
theorem dropWhile_decimal (n : Nat) : (decimal n).dropWhile (· = 32) = decimal n := by
  have digits := isDigit_toDigits n
  unfold decimal
  cases hd : Nat.toDigits 10 n with
  | nil => rfl
  | cons c cs =>
    have digit := digits c (by rw [hd]; exact List.mem_cons_self)
    have bounds := isDigit_bounds digit
    have value := toNat_unit digit
    have notBlank : UInt16.ofNat c.toNat ≠ 32 := by
      intro blank
      rw [blank] at value
      have blankValue : (32 : UInt16).toNat = 32 := rfl
      omega
    rw [List.map_cons, List.dropWhile_cons_of_neg]
    simpa using notBlank

/-- **`Atoi` reads back what `%d` wrote.** -/
@[simp] theorem atoi_decimal (n : Nat) : atoi (decimal n) = n := by
  rw [atoi, dropWhile_decimal, decimal, atoiDigits_eq (isDigit_toDigits n),
    Nat.ofDigitChars_ten_toDigits]

end Lavoro
