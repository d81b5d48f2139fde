import Mathlib.Data.List.Nodup
import Mathlib.Data.List.Perm.Subperm
import Mathlib.Logic.Function.Basic

/-!
# Arrangements kept with flags

An arrangement of numbers below `n` is a list without repetition; beside it an array of flags
says of each number whether it is in the list. Putting a free number at the end and taking the
last one away keep the two together (`place`, `unplace`), and once no number is free the list is a
permutation of all of them (`perm_of_full`). The list is the first cells of an array: `firstCells`.
-/

namespace Lavoro.Lib

/-- The first `k` cells of an array. -/
def firstCells (k : Nat) (q : Nat → Nat) : List Nat := (List.range k).map q

@[simp] theorem firstCells_zero (q : Nat → Nat) : firstCells 0 q = [] := rfl

@[simp] theorem length_firstCells (k : Nat) (q : Nat → Nat) : (firstCells k q).length = k := by
  simp [firstCells]

theorem firstCells_succ (k : Nat) (q : Nat → Nat) : firstCells (k + 1) q = firstCells k q ++ [q k] := by
  simp [firstCells, List.range_succ]

theorem firstCells_congr {k : Nat} {q q' : Nat → Nat} (same : ∀ i, i < k → q i = q' i) :
    firstCells k q = firstCells k q' := by
  apply List.map_congr_left
  intro i mem
  exact same i (List.mem_range.1 mem)

/-- A write behind the first cells. -/
theorem firstCells_update_of_le {k i : Nat} (q : Nat → Nat) (x : Nat) (le : k ≤ i) :
    firstCells k (Function.update q i x) = firstCells k q := by
  apply firstCells_congr
  intro j lt
  exact Function.update_of_ne (by omega) _ _

/-- A write to the next cell. -/
theorem firstCells_update_self (k : Nat) (q : Nat → Nat) (x : Nat) :
    firstCells (k + 1) (Function.update q k x) = firstCells k q ++ [x] := by
  rw [firstCells_succ, firstCells_update_of_le q x (Nat.le_refl k), Function.update_self]

theorem mem_firstCells {k x : Nat} {q : Nat → Nat} : x ∈ firstCells k q ↔ ∃ i, i < k ∧ q i = x := by
  simp [firstCells]

/-- `path` is an arrangement of numbers below `n`, and `used` marks the numbers in it. -/
structure Arrangement (n : Nat) (used : Nat → Bool) (path : List Nat) : Prop where
  nodup : path.Nodup
  below : ∀ i ∈ path, i < n
  marks : ∀ i, i < n → (used i = true ↔ i ∈ path)

namespace Arrangement

variable {n i : Nat} {used : Nat → Bool} {path : List Nat}

theorem nil (free : ∀ i, i < n → used i = false) : Arrangement n used [] := by
  refine ⟨List.nodup_nil, by simp, ?_⟩
  intro i lt
  simp [free i lt]

/-- A number that is free goes to the end. -/
theorem place (h : Arrangement n used path) (lt : i < n) (free : used i = false) :
    Arrangement n (Function.update used i true) (path ++ [i]) := by
  have new : i ∉ path := by
    intro mem
    rw [(h.marks i lt).2 mem] at free
    cases free
  refine ⟨?_, ?_, ?_⟩
  · rw [List.nodup_append_comm]
    exact List.nodup_cons.2 ⟨new, h.nodup⟩
  · intro j mem
    rcases List.mem_append.1 mem with old | last
    · exact h.below j old
    · rw [List.mem_singleton.1 last]
      exact lt
  · intro j below
    by_cases eq : j = i
    · simp [eq]
    · simp [h.marks j below, eq]

theorem length_le (h : Arrangement n used path) : path.length ≤ n := by
  have sub : path.Subperm (List.range n) :=
    List.subperm_of_subset h.nodup fun i mem => List.mem_range.2 (h.below i mem)
  simpa using sub.length_le

/-- **No number is free any more.** -/
theorem perm_of_full (h : Arrangement n used path) (full : ∀ i, i < n → used i = true) :
    path.Perm (List.range n) := by
  rw [List.perm_ext_iff_of_nodup h.nodup List.nodup_range]
  intro i
  rw [List.mem_range]
  exact ⟨h.below i, fun lt => (h.marks i lt).1 (full i lt)⟩

theorem perm_of_length (h : Arrangement n used path) (all : path.length = n) :
    path.Perm (List.range n) := by
  have sub : path.Subperm (List.range n) :=
    List.subperm_of_subset h.nodup fun i mem => List.mem_range.2 (h.below i mem)
  exact sub.perm_of_length_le (by simp [all])

/-- A number is free as long as the list is short. -/
theorem length_of_full (h : Arrangement n used path) (full : ∀ i, i < n → used i = true) :
    path.length = n := by
  simpa using (h.perm_of_full full).length_eq

end Arrangement

end Lavoro.Lib
