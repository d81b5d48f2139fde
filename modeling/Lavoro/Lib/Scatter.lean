import Mathlib.Data.List.Induction

/-!
# Values written one after another

`scatter N writes f` is an array of `N` cells after some values have been written into it, one after
another; a value for a cell behind the array is dropped. A cell holds what was written into it last
(`scatter_last`). The writes of a picture are those of its points, row by row, where a point may write
nothing (`pointWrites`); `foldl_points` says that a loop over the points does them. Of two points that
come to lie in one cell the later one wins (`scatter_points_last`, `scatter_points_mem`).
-/

namespace Lavoro.Lib

variable {α σ : Type} {N c : Nat} {f : Nat → α}

/-- One value, inside the array or behind it. -/
def scatterOne (N : Nat) (f : Nat → α) (write : Nat × α) : Nat → α :=
  fun c => if c = write.1 ∧ c < N then write.2 else f c

def scatter (N : Nat) (writes : List (Nat × α)) (f : Nat → α) : Nat → α :=
  writes.foldl (scatterOne N) f

theorem scatter_append (N : Nat) (front back : List (Nat × α)) (f : Nat → α) :
    scatter N (front ++ back) f = scatter N back (scatter N front f) :=
  List.foldl_append

/-- A cell that nothing is written into is left as it is. -/
theorem scatter_none {writes : List (Nat × α)} (none : ∀ w ∈ writes, w.1 ≠ c) : scatter N writes f c = f c := by
  induction writes generalizing f with
  | nil => rfl
  | cons w writes ih =>
    have other : c ≠ w.1 := (none w List.mem_cons_self).symm
    refine (ih fun v mem => none v (List.mem_cons_of_mem w mem)).trans ?_
    exact if_neg fun here => other here.1

/-- **A cell holds what was written into it last.** -/
theorem scatter_last {front back : List (Nat × α)} {a : α} (inside : c < N) (later : ∀ w ∈ back, w.1 ≠ c) :
    scatter N (front ++ (c, a) :: back) f c = a := by
  rw [scatter_append]
  apply (scatter_none later).trans
  exact if_pos ⟨rfl, inside⟩

/-- A cell that has been written holds one of the values written. -/
theorem scatter_mem {writes : List (Nat × α)} (inside : c < N) (written : ∃ w ∈ writes, w.1 = c) :
    ∃ w ∈ writes, w.1 = c ∧ scatter N writes f c = w.2 := by
  induction writes using List.reverseRecOn with
  | nil =>
    obtain ⟨w, mem, -⟩ := written
    cases mem
  | append_singleton writes w ih =>
    rw [scatter_append]
    by_cases here : w.1 = c
    · refine ⟨w, List.mem_append_right _ (List.mem_singleton_self w), here, ?_⟩
      exact if_pos ⟨here.symm, inside⟩
    · obtain ⟨v, mem, at'⟩ := written
      have earlier : v ∈ writes := by
        rcases List.mem_append.1 mem with earlier | last
        · exact earlier
        · rw [List.mem_singleton.1 last] at at'
          exact absurd at' here
      obtain ⟨u, mem, at', value⟩ := ih ⟨v, earlier, at'⟩
      refine ⟨u, List.mem_append_left _ mem, at', ?_⟩
      rw [← value]
      exact if_neg fun now => here now.1.symm

/-! ## The points of a picture -/

/-- What the points write, row by row. -/
def pointWrites (rows columns : List Nat) (cell : Nat → Nat → Nat) (v : Nat → Nat → Option α) : List (Nat × α) :=
  rows.flatMap fun i => columns.filterMap fun j => (v i j).map fun a => (cell i j, a)

section Points

variable {rows columns : List Nat} {cell : Nat → Nat → Nat} {v : Nat → Nat → Option α}

theorem mem_pointWrites {w : Nat × α} :
    w ∈ pointWrites rows columns cell v ↔ ∃ i ∈ rows, ∃ j ∈ columns, ∃ a, v i j = some a ∧ (cell i j, a) = w := by
  simp only [pointWrites, List.mem_flatMap, List.mem_filterMap, Option.map_eq_some_iff]

theorem pointWrites_append (rows rows' columns : List Nat) (cell : Nat → Nat → Nat) (v : Nat → Nat → Option α) :
    pointWrites (rows ++ rows') columns cell v =
      pointWrites rows columns cell v ++ pointWrites rows' columns cell v :=
  List.flatMap_append

/-- A loop over the columns of a row. -/
theorem foldl_columns {g : (Nat → α) → σ} {step : σ → Nat → σ} {at' : Nat → Nat} {u : Nat → Option α}
    (turn : ∀ j ∈ columns, ∀ f, step (g f) j = g ((u j).elim f fun a => scatterOne N f (at' j, a))) (f : Nat → α) :
    columns.foldl step (g f) =
      g (scatter N (columns.filterMap fun j => (u j).map fun a => (at' j, a)) f) := by
  induction columns generalizing f with
  | nil => rfl
  | cons j columns ih =>
    have rest := ih fun k mem => turn k (List.mem_cons_of_mem j mem)
    rw [List.foldl_cons, turn j List.mem_cons_self]
    cases here : u j with
    | none =>
      rw [List.filterMap_cons_none (by rw [here, Option.map_none])]
      exact rest f
    | some a =>
      rw [List.filterMap_cons_some (by rw [here, Option.map_some])]
      exact rest _

/-- **A loop over the points** of a picture writes their values. -/
theorem foldl_points {g : (Nat → α) → σ} {step : Nat → σ → Nat → σ}
    (turn : ∀ i ∈ rows, ∀ j ∈ columns, ∀ f,
      step i (g f) j = g ((v i j).elim f fun a => scatterOne N f (cell i j, a))) (f : Nat → α) :
    rows.foldl (fun s i => columns.foldl (step i) s) (g f) =
      g (scatter N (pointWrites rows columns cell v) f) := by
  induction rows generalizing f with
  | nil => rfl
  | cons i rows ih =>
    rw [List.foldl_cons, foldl_columns (turn i List.mem_cons_self)]
    rw [ih fun k mem => turn k (List.mem_cons_of_mem i mem), ← scatter_append]
    rfl

variable {m n i j : Nat} {a : α}

/-- The numbers from `k` on. -/
theorem range_split {k : Nat} (le : k ≤ m) : List.range m = List.range k ++ List.range' k (m - k) := by
  have joined : List.range' 0 k ++ List.range' (0 + k) (m - k) = List.range' 0 (k + (m - k)) :=
    List.range'_append_1
  rw [Nat.zero_add, Nat.add_sub_cancel' le] at joined
  rw [List.range_eq_range', List.range_eq_range']
  exact joined.symm

/-- The same with `k` apart. -/
theorem range_cut {k : Nat} (lt : k < m) :
    List.range m = List.range k ++ k :: List.range' (k + 1) (m - (k + 1)) := by
  rw [range_split (Nat.le_of_lt lt), ← List.range'_succ, show m - (k + 1) + 1 = m - k by omega]

/-- A cell in which no point comes to lie. -/
theorem scatter_points_none (none : ∀ i j, i < m → j < n → v i j ≠ none → cell i j ≠ c) :
    scatter N (pointWrites (List.range m) (List.range n) cell v) f c = f c := by
  apply scatter_none
  intro w mem
  obtain ⟨i, row, j, column, a, value, rfl⟩ := mem_pointWrites.1 mem
  apply none i j (List.mem_range.1 row) (List.mem_range.1 column)
  rw [value]
  exact Option.some_ne_none a

/-- Behind the row `k` a point comes to lie in a cell: the cell shows one of these. -/
theorem scatter_points_mem (k : Nat) (inside : c < N) (row : i < m) (column : j < n) (behind : k ≤ i)
    (here : cell i j = c) (value : v i j = some a) :
    ∃ i j a, k ≤ i ∧ i < m ∧ j < n ∧ cell i j = c ∧ v i j = some a ∧
      scatter N (pointWrites (List.range m) (List.range n) cell v) f c = a := by
  have written : ∃ w ∈ pointWrites (List.range' k (m - k)) (List.range n) cell v, w.1 = c := by
    refine ⟨(cell i j, a), mem_pointWrites.2 ⟨i, ?_, j, List.mem_range.2 column, a, value, rfl⟩, here⟩
    rw [List.mem_range'_1]
    omega
  rw [range_split (show k ≤ m by omega), pointWrites_append, scatter_append]
  obtain ⟨w, mem, at', shown⟩ := scatter_mem inside written
  obtain ⟨i', row', j', column', a', value', rfl⟩ := mem_pointWrites.1 mem
  rw [List.mem_range'_1] at row'
  exact ⟨i', j', a', row'.1, by omega, List.mem_range.1 column', at', value', shown⟩

/-- **The last point** that comes to lie in a cell is shown. -/
theorem scatter_points_last (inside : c < N) (row : i < m) (column : j < n) (here : cell i j = c)
    (value : v i j = some a)
    (later : ∀ i' j', i' < m → j' < n → i < i' ∨ i' = i ∧ j < j' → v i' j' ≠ none → cell i' j' ≠ c) :
    scatter N (pointWrites (List.range m) (List.range n) cell v) f c = a := by
  have shape : pointWrites (List.range m) (List.range n) cell v =
      (pointWrites (List.range i) (List.range n) cell v ++ pointWrites [i] (List.range j) cell v) ++
        (c, a) :: (pointWrites [i] (List.range' (j + 1) (n - (j + 1))) cell v ++
          pointWrites (List.range' (i + 1) (m - (i + 1))) (List.range n) cell v) := by
    rw [range_cut row, pointWrites_append, List.append_assoc]
    congr 1
    rw [show i :: List.range' (i + 1) (m - (i + 1)) = [i] ++ List.range' (i + 1) (m - (i + 1)) from rfl,
      pointWrites_append]
    simp only [pointWrites, List.flatMap_cons, List.flatMap_nil, List.append_nil]
    rw [range_cut column, List.filterMap_append, List.filterMap_cons_some (by rw [value, Option.map_some]), here]
    simp only [List.append_assoc, List.cons_append]
  rw [shape]
  apply scatter_last inside
  intro w mem
  rcases List.mem_append.1 mem with same | below
  · obtain ⟨i', row', j', column', a', value', rfl⟩ := mem_pointWrites.1 same
    obtain rfl := List.mem_singleton.1 row'
    rw [List.mem_range'_1] at column'
    exact later i' j' row (by omega) (.inr ⟨rfl, by omega⟩) (by rw [value']; exact Option.some_ne_none a')
  · obtain ⟨i', row', j', column', a', value', rfl⟩ := mem_pointWrites.1 below
    rw [List.mem_range'_1] at row'
    exact later i' j' (by omega) (List.mem_range.1 column') (.inl (by omega))
      (by rw [value']; exact Option.some_ne_none a')

end Points

end Lavoro.Lib
