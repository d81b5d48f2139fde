/-!
# Arrays of a fixed size with checked indices

A `Slots n α` is an array of `n` cells that is indexed by an `Int`, as C code does:
`at?` and `put?` have a result exactly for an index inside the array.
-/

namespace Lavoro.Lib

/-- `α array[n]`. -/
def Slots (n : Nat) (α : Type) := Fin n → α

namespace Slots

variable {n : Nat} {α : Type} {a : Slots n α} {i : Int} {x : α}

/-- `array[i]`. -/
def at? (a : Slots n α) (i : Int) : Option α :=
  if h : 0 ≤ i ∧ i < n then some (a ⟨i.toNat, by omega⟩) else none

/-- `array[i] = x`. -/
def put? (a : Slots n α) (i : Int) (x : α) : Option (Slots n α) :=
  if 0 ≤ i ∧ i < n then some fun j => if (j.val : Int) = i then x else a j else none

theorem put?_eq_none (outside : ¬ (0 ≤ i ∧ i < n)) : a.put? i x = none := if_neg outside

/-- A write inside the array is seen by a read of its cell, and by no other. -/
theorem put?_of_inside (a : Slots n α) (x : α) (inside : 0 ≤ i ∧ i < n) :
    ∃ b, a.put? i x = some b ∧ b.at? i = some x ∧ ∀ j, j ≠ i → b.at? j = a.at? j := by
  refine ⟨_, if_pos inside, ?_, ?_⟩
  · have value : (i.toNat : Int) = i := Int.toNat_of_nonneg inside.1
    simp [at?, inside, value]
  · intro j ne
    unfold at?
    split
    · rename_i here
      have value : (j.toNat : Int) = j := Int.toNat_of_nonneg here.1
      simp [value, ne]
    · rfl

end Slots

end Lavoro.Lib
