import Lavoro.Console.Mode

/-!
# Arguments of a line that stands in an older one

`szLine` holds the line, a NUL and what older lines have left behind it. An argument is found by
its offset or behind the first NUL; the lemmas below say which arguments lie inside the line,
so that nothing behind its NUL is looked at, and what is read where one does not.
-/

namespace Lavoro.Console
open Lib

/-! ## Strings -/

/-- Of what is behind a NUL nothing belongs to a string in front of it. -/
theorem strAt_append {x : Str16} {i : Nat} (inside : i ≤ x.length) (rest : Str16) :
    strAt (x ++ 0 :: rest) i = strAt x i := by
  unfold strAt
  rw [List.drop_append_of_le_length inside]
  induction x.drop i with
  | nil => rfl
  | cons c y ih =>
    rw [List.cons_append, List.takeWhile_cons, List.takeWhile_cons, ih]

/-- The string behind the NUL. -/
theorem strAt_behind (x rest : Str16) : strAt (x ++ 0 :: rest) (x.length + 1) = strAt rest 0 := by
  unfold strAt
  rw [← List.drop_drop, List.drop_left, List.drop_succ_cons]

theorem strAt_clean {line : Str16} (clean : 0 ∉ line) (i : Nat) : strAt line i = line.drop i :=
  CString.text_of_clean fun mem => clean (List.mem_of_mem_drop mem)

theorem strAt_line {line : Str16} (clean : 0 ∉ line) (rest : Str16) : strAt (line ++ 0 :: rest) 0 = line := by
  rw [strAt_append (Nat.zero_le _), strAt_clean clean, List.drop_zero]

/-- A NUL inside ends the string before the end. -/
theorem strLen_lt {x : Str16} (nul : 0 ∈ x) : strLen x < x.length := by
  obtain ⟨behind, shape⟩ := CString.eq_text_append nul
  have length := congrArg List.length shape
  rw [List.length_append, List.length_cons] at length
  rw [strLen, strAt_zero]
  show (CString.text 0 x).length < x.length
  omega

theorem strLen_append (x rest : Str16) : strLen (x ++ 0 :: rest) = strLen x := by
  rw [strLen, strAt_append (Nat.zero_le _), strLen]

/-! ## Cutting at spaces -/

/-- A loop that cuts a line at spaces: it stops at the NUL and keeps the length. -/
structure Cuts (cut : Str16 → Str16) : Prop where
  append : ∀ x rest, cut (x ++ 0 :: rest) = cut x ++ 0 :: rest
  length : ∀ x, (cut x).length = x.length
  uncut : ∀ x, space ∉ x → cut x = x
  nul : ∀ x, space ∈ x → 0 ∈ cut x

/-- What the two loops share; behind a space the one stops and the other goes on. -/
theorem cuts_of_step {cut behind : Str16 → Str16} (nil : cut [] = [])
    (cons : ∀ c x, cut (c :: x) =
      if c = 0 then c :: x else if c = space then 0 :: behind x else c :: cut x)
    (goes : behind = id ∨ behind = cut) : Cuts cut where
  append x rest := by
    induction x with
    | nil => simp [nil, cons]
    | cons c x ih =>
      rw [List.cons_append, cons, cons]
      split_ifs
      · rfl
      · obtain rfl | rfl := goes
        · rfl
        · rw [ih, List.cons_append]
      · rw [ih, List.cons_append]
  length x := by
    induction x with
    | nil => rw [nil]
    | cons c x ih =>
      rw [cons]
      split_ifs
      · rfl
      · obtain rfl | rfl := goes
        · rfl
        · rw [List.length_cons, ih, List.length_cons]
      · rw [List.length_cons, ih, List.length_cons]
  uncut x none := by
    induction x with
    | nil => exact nil
    | cons c x ih =>
      rw [List.mem_cons, not_or] at none
      rw [cons, if_neg (Ne.symm none.1), ih none.2, ite_self]
  nul x cuts := by
    induction x with
    | nil => cases cuts
    | cons c x ih =>
      rw [cons]
      split_ifs with ends here
      · exact ends ▸ List.mem_cons_self
      · exact List.mem_cons_self
      · obtain rfl | later := List.mem_cons.1 cuts
        · exact absurd rfl here
        · exact List.mem_cons_of_mem _ (ih later)

theorem cutFirst_cuts : Cuts cutFirst := cuts_of_step rfl (fun _ _ => rfl) (.inl rfl)

theorem cutAll_cuts : Cuts cutAll := cuts_of_step rfl (fun _ _ => rfl) (.inr rfl)

section Cut

variable {cut : Str16 → Str16} {line : Str16} {i : Nat}

theorem cutFrom_append (cuts : Cuts cut) (inside : i ≤ line.length) (rest : Str16) :
    cutFrom cut i (line ++ 0 :: rest) = cutFrom cut i line ++ 0 :: rest := by
  rw [cutFrom, List.take_append_of_le_length inside, List.drop_append_of_le_length inside, cuts.append,
    ← List.append_assoc, cutFrom]

theorem length_cutFrom (cuts : Cuts cut) (i : Nat) (line : Str16) : (cutFrom cut i line).length = line.length := by
  rw [cutFrom, List.length_append, cuts.length, ← List.length_append, List.take_append_drop]

theorem cutFrom_uncut (cuts : Cuts cut) (none : space ∉ line.drop i) : cutFrom cut i line = line := by
  rw [cutFrom, cuts.uncut _ none, List.take_append_drop]

theorem nul_mem_cutFrom (cuts : Cuts cut) (some : space ∈ line.drop i) : 0 ∈ cutFrom cut i line :=
  List.mem_append_right _ (cuts.nul _ some)

/-- The two arguments of a line that has them. -/
theorem two_arguments (cuts : Cuts cut) (two : space ∈ line.drop i) :
    i ≤ line.length ∧ i ≤ (cutFrom cut i line).length ∧
      strLen (cutFrom cut i line) + 1 ≤ (cutFrom cut i line).length := by
  have long := List.length_pos_of_mem two
  rw [List.length_drop] at long
  have second := strLen_lt (nul_mem_cutFrom cuts two)
  have length := length_cutFrom cuts i line
  omega

end Cut

/-! ## Numbers -/

theorem atoiDigits_append (p rest : Str16) (u : Nat) : atoiDigits u (p ++ 0 :: rest) = atoiDigits u p := by
  induction p generalizing u with
  | nil => rfl
  | cons c p ih => rw [List.cons_append, atoiDigits, atoiDigits, ih]

theorem number_append (p rest : Str16) : number (p ++ 0 :: rest) = ((number p).1, (number p).2 ++ 0 :: rest) := by
  have behind : (p ++ 0 :: rest).dropWhile digit = p.dropWhile digit ++ 0 :: rest := by
    induction p with
    | nil => rfl
    | cons c p ih => by_cases h : digit c <;> simp [h, ih]
  rw [number, atoiDigits_append, behind, number]

/-- The units of an argument that are no digits. -/
def gaps (p : Str16) : Nat := p.countP fun c => !digit c

/-- Behind a number stands a gap, or nothing. -/
theorem gaps_number (p : Str16) :
    (number p).2 = [] ∧ gaps p = 0 ∨ ∃ c q, (number p).2 = c :: q ∧ gaps p = gaps q + 1 := by
  unfold number gaps
  induction p with
  | nil => exact .inl ⟨rfl, rfl⟩
  | cons c p ih =>
    cases h : digit c with
    | true => simpa [List.dropWhile_cons, List.countP_cons, h] using ih
    | false => exact .inr ⟨c, p, by simp [h], by simp [h]⟩

/-- Numbers that lie inside the line. -/
theorem numbers_inside {n : Nat} {p : Str16} (enough : n ≤ gaps p) (rest : Str16) :
    numbers n (p ++ 0 :: rest) = ((numbers n p).1, (numbers n p).2 ++ 0 :: rest) := by
  induction n generalizing p with
  | zero => rfl
  | succ n ih =>
    obtain ⟨-, none⟩ | ⟨c, q, behind, more⟩ := gaps_number p
    · omega
    · rw [numbers, numbers, number_append, behind, List.cons_append, List.tail_cons, List.tail_cons,
        ih (by omega)]

/-- Numbers that reach behind the line: with the gaps used up, the next of them are those of
what stands there. -/
theorem numbers_behind {n : Nat} {p : Str16} (few : gaps p < n) :
    ∃ front, ∀ rest, numbers n (p ++ 0 :: rest) =
      (front ++ (numbers (n - 1 - gaps p) rest).1, (numbers (n - 1 - gaps p) rest).2) := by
  induction n generalizing p with
  | zero => omega
  | succ n ih =>
    obtain ⟨ends, none⟩ | ⟨c, q, behind, more⟩ := gaps_number p
    · refine ⟨[UInt8.ofNat (number p).1], fun rest => ?_⟩
      rw [numbers, number_append, ends, none]
      rfl
    · obtain ⟨front, same⟩ := ih (show gaps q < n by omega)
      refine ⟨UInt8.ofNat (number p).1 :: front, fun rest => ?_⟩
      rw [numbers, number_append, behind, List.cons_append, List.tail_cons, same, more,
        show n + 1 - 1 - (gaps q + 1) = n - 1 - gaps q by omega, List.cons_append]

theorem port_append (remotePort : UInt16) (p rest : Str16) : port remotePort (p ++ 0 :: rest) = port remotePort p := by
  have first : (p ++ 0 :: rest).headD 0 = p.headD 0 := by cases p <;> rfl
  rw [port, first, number_append, port]

end Lavoro.Console
