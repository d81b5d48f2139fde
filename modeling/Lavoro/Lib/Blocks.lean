import Mathlib.Data.List.Basic

/-!
# Sequences of blocks

`blocks n f` is `f 0`, …, `f (n - 1)` one after the other. Blocks of one length are found at
the multiples of this length.
-/

namespace Lavoro.Lib

variable {α : Type} {f : Nat → List α} {length n : Nat}

def blocks (n : Nat) (f : Nat → List α) : List α := (List.range n).flatMap f

theorem blocks_succ (n : Nat) (f : Nat → List α) : blocks (n + 1) f = f 0 ++ blocks n fun i => f (i + 1) := by
  rw [blocks, List.range_succ_eq_map, List.flatMap_cons, List.flatMap_map]
  rfl

theorem length_blocks (uniform : ∀ i, i < n → (f i).length = length) :
    (blocks n f).length = length * n := by
  induction n generalizing f with
  | zero => rfl
  | succ n ih =>
    have first := uniform 0 (Nat.succ_pos n)
    have others := ih (f := fun i => f (i + 1)) fun i inside => uniform (i + 1) (Nat.succ_lt_succ inside)
    rw [blocks_succ, List.length_append, first, others, Nat.mul_succ, Nat.add_comm]

/-- The block that starts at `length * i`. -/
theorem drop_blocks {i : Nat} (uniform : ∀ i, i < n → (f i).length = length) (inside : i < n)
    (after : List α) : ∃ others, (blocks n f ++ after).drop (length * i) = f i ++ others := by
  induction n generalizing f i with
  | zero => omega
  | succ n ih =>
    rw [blocks_succ, List.append_assoc]
    cases i with
    | zero => exact ⟨_, rfl⟩
    | succ i =>
      have first := uniform 0 (Nat.succ_pos n)
      obtain ⟨others, found⟩ := ih (f := fun i => f (i + 1)) (i := i)
        (fun i inside => uniform (i + 1) (Nat.succ_lt_succ inside)) (Nat.lt_of_succ_lt_succ inside)
      refine ⟨others, ?_⟩
      rw [Nat.mul_succ, Nat.add_comm, ← List.drop_drop, List.drop_left' first]
      exact found

end Lavoro.Lib
