import Mathlib.Data.List.Basic
import Mathlib.Order.Basic

/-!
# Cutting a row into segments

Some of the columns before `last` are full. A scan starts a segment at the first full column and ends
it at the first empty one that lies more than `m` columns behind, or at `last`; `cut` scans once for
every label, each time one column behind the end of the segment before. The segments of a row whose
full columns make up one piece for every label are these pieces (`cut_eq`), each continued up to the
column at which the scan can end.
-/

namespace Lavoro.Lib

variable {α : Type}

/-- The segment that a scan over `n` columns from `j` on finds, of which `start` is the first column if
it has been found, and the column at which the scan ends. -/
def scan (full : Nat → Bool) (m : Nat) : Nat → Nat → Option Nat → Option Nat × Nat
  | 0, j, start => (start, j)
  | n + 1, j, none => scan full m n (j + 1) (if full j then some j else none)
  | n + 1, j, some s => if m < j - s ∧ full j = false then (some s, j) else scan full m n (j + 1) (some s)

/-- A segment for every label, as long as there are columns. -/
def cut (full : Nat → Bool) (m last : Nat) : List α → Nat → List (α × Nat × Nat)
  | [], _ => []
  | a :: labels, j =>
    if j < last then
      match scan full m (last - j) j none with
      | (some s, e) => (a, s, e) :: cut full m last labels (e + 1)
      | (none, e) => cut full m last labels (e + 1)
    else []

section Scan

variable {full : Nat → Bool} {m last j s b n : Nat}

/-- A scan ends among its columns, and not before its segment begins. -/
theorem scan_bounds {start : Option Nat} (started : ∀ s ∈ start, s ≤ j) :
    (scan full m n j start).2 ≤ j + n ∧ ∀ s ∈ (scan full m n j start).1, s ≤ (scan full m n j start).2 := by
  induction n generalizing j start with
  | zero => exact ⟨Nat.le_refl j, started⟩
  | succ n ih =>
    cases start with
    | none =>
      rw [scan, ← Nat.succ_add_eq_add_succ j n]
      refine ih fun s first => ?_
      split at first
      · cases first
        exact Nat.le_succ j
      · cases first
    | some s =>
      rw [scan]
      split
      · exact ⟨Nat.le_add_right j _, started⟩
      · rw [← Nat.succ_add_eq_add_succ j n]
        exact ih fun a first => Nat.le_succ_of_le (started a first)

/-- A segment that has been found is kept. -/
theorem scan_some : ∃ e, scan full m n j (some s) = (some s, e) := by
  induction n generalizing j with
  | zero => exact ⟨j, rfl⟩
  | succ n ih =>
    rw [scan]
    split
    · exact ⟨j, rfl⟩
    · exact ih

/-- No segment reaches behind the last column. -/
theorem cut_bounds {labels : List α} {x : α × Nat × Nat} (mem : x ∈ cut full m last labels j) :
    x.2.1 ≤ x.2.2 ∧ x.2.2 ≤ last := by
  induction labels generalizing j with
  | nil => cases mem
  | cons a labels ih =>
    rw [cut] at mem
    split at mem
    · have bounds := @scan_bounds full m j (last - j) none fun s first => absurd first (Option.not_mem_none s)
      generalize scan full m (last - j) j none = found at mem bounds
      obtain ⟨start, stop⟩ := found
      obtain ⟨most, first⟩ := bounds
      cases start with
      | none => exact ih mem
      | some s =>
        rcases List.mem_cons.1 mem with rfl | behind
        · exact ⟨first s rfl, by dsimp only at most ⊢; omega⟩
        · exact ih behind
    · cases mem

/-- The first label gets a segment where the first column is full. -/
theorem exists_mem_cut (start : full j = true) (inside : j < last) {labels : List α} (some : labels ≠ []) :
    ∃ x, x ∈ cut full m last labels j := by
  obtain ⟨a, labels, rfl⟩ := List.exists_cons_of_ne_nil some
  obtain ⟨n, count⟩ : ∃ n, last - j = n + 1 := ⟨last - j - 1, by omega⟩
  rw [cut, if_pos inside, count, scan, start, if_pos rfl]
  obtain ⟨e, found⟩ := @scan_some full m (j + 1) j n
  rw [found]
  exact ⟨_, List.mem_cons_self⟩

/-- The scan ends at the first column where it can. -/
theorem scan_inside (before : ∀ c, j ≤ c → c < b → s + m < c → full c = true) (start : s ≤ j) (le : j ≤ b)
    (ends : b < j + n → s + m < b ∧ full b = false) : scan full m n j (some s) = (some s, min b (j + n)) := by
  induction n generalizing j with
  | zero => rw [scan, Nat.add_zero, Nat.min_eq_right le]
  | succ n ih =>
    rw [scan]
    rcases Nat.lt_or_eq_of_le le with earlier | rfl
    · have going : ¬ (m < j - s ∧ full j = false) := by
        rintro ⟨far, none⟩
        rw [before j (Nat.le_refl j) earlier (by omega)] at none
        cases none
      rw [if_neg going, ih (fun c behind => before c (by omega)) (by omega) earlier (fun lt => ends (by omega)),
        Nat.succ_add_eq_add_succ]
    · obtain ⟨far, none⟩ := ends (by omega)
      rw [if_pos ⟨by omega, none⟩, Nat.min_eq_left (by omega)]

/-- The empty columns in front are passed over. -/
theorem scan_in_front (empty : ∀ c, j ≤ c → c < s → full c = false) (start : full s = true) (le : j ≤ s)
    (inside : s < j + n) (before : ∀ c, s ≤ c → c < b → s + m < c → full c = true) (behind : s < b)
    (ends : b < j + n → s + m < b ∧ full b = false) : scan full m n j none = (some s, min b (j + n)) := by
  induction n generalizing j with
  | zero => omega
  | succ n ih =>
    rw [scan]
    rcases Nat.lt_or_eq_of_le le with earlier | rfl
    · rw [empty j (Nat.le_refl j) earlier]
      refine (ih (fun c later => empty c (by omega)) earlier (by omega) (fun lt => ends (by omega))).trans ?_
      rw [Nat.succ_add_eq_add_succ]
    · rw [start]
      refine (scan_inside (fun c later => before c (by omega)) (Nat.le_succ j) behind
        (fun lt => ends (by omega))).trans ?_
      rw [Nat.succ_add_eq_add_succ]

end Scan

/-- The full columns make up `n` pieces, of which `[s i, e i)` is the `i`-th: the first column of a piece is
full and so is every one more than `m` columns behind it, and the next piece starts behind the first
column at which a scan can end. -/
structure Pieces (full : Nat → Prop) (m last n : Nat) (s e : Nat → Nat) : Prop where
  covered : ∀ c, full c → ∃ i < n, s i ≤ c ∧ c < e i
  last : e (n - 1) = last
  start : ∀ i < n, full (s i)
  solid : ∀ i < n, ∀ c, s i ≤ c → c < e i → m < c - s i → full c
  apart : ∀ i, i + 1 < n → max (e i) (s i + m + 1) < s (i + 1)

namespace Pieces

variable {full : Nat → Prop} {m last n : Nat} {s e : Nat → Nat}

theorem starts_before (h : Pieces full m last n s e) {i k : Nat} (lt : i < k) (inside : k < n) :
    max (e i) (s i + m + 1) < s k := by
  induction k with
  | zero => omega
  | succ k ih =>
    have step := h.apart k inside
    rcases Nat.lt_or_eq_of_le (Nat.le_of_lt_succ lt) with earlier | rfl
    · have before := ih earlier (by omega)
      omega
    · exact step

/-- A piece is not empty. -/
theorem lt (h : Pieces full m last n s e) {i : Nat} (inside : i < n) : s i < e i := by
  obtain ⟨k, other, front, back⟩ := h.covered (s i) (h.start i inside)
  rcases Nat.lt_trichotomy k i with before | rfl | behind
  · have apart := h.starts_before before inside
    omega
  · exact back
  · have apart := h.starts_before behind other
    omega

/-- Between the columns at which the scans for two neighbours can end and start there is none. -/
theorem empty_between (h : Pieces full m last n s e) {i c : Nat} (inside : i < n) (before : c < s i)
    (behind : ∀ k, k + 1 = i → e k ≤ c) : ¬ full c := by
  intro some
  obtain ⟨k, other, front, back⟩ := h.covered c some
  rcases Nat.lt_trichotomy k i with earlier | rfl | later
  · rcases Nat.lt_or_eq_of_le (Nat.succ_le_of_lt earlier) with far | rfl
    · obtain ⟨i', rfl⟩ : ∃ i', i = i' + 1 := ⟨i - 1, by omega⟩
      have between := h.starts_before (show k < i' by omega) (by omega)
      have last := behind i' rfl
      have own := h.lt (show i' < n by omega)
      omega
    · have last := behind k rfl
      omega
  · omega
  · have apart := h.starts_before later other
    omega

/-- Every piece lies before `last`. -/
theorem le_last (h : Pieces full m last n s e) {i : Nat} (inside : i < n) : e i ≤ last := by
  rw [← h.last]
  rcases Nat.lt_or_eq_of_le (Nat.le_sub_one_of_lt inside) with before | rfl
  · have apart := h.starts_before before (by omega)
    have own := h.lt (show n - 1 < n by omega)
    omega
  · exact Nat.le_refl _

/-- So there are at most as many as columns. -/
theorem le_start (h : Pieces full m last n s e) {i : Nat} (inside : i < n) : i ≤ s i := by
  induction i with
  | zero => exact Nat.zero_le _
  | succ i ih =>
    have before := ih (by omega)
    have apart := h.apart i inside
    omega

/-- The column at which the scan for a piece ends. -/
theorem scan_eq [DecidablePred full] (h : Pieces full m last n s e) {i j : Nat} (inside : i < n) (le : j ≤ s i)
    (behind : ∀ k, k + 1 = i → e k ≤ j) :
    scan (fun c => decide (full c)) m (last - j) j none = (some (s i), min (max (e i) (s i + m + 1)) last) := by
  have own := h.lt inside
  have most := h.le_last inside
  have found : scan (fun c => decide (full c)) m (last - j) j none =
      (some (s i), min (max (e i) (s i + m + 1)) (j + (last - j))) := by
    refine scan_in_front (fun c later before => decide_eq_false ?_) (decide_eq_true (h.start i inside)) le (by omega)
      (fun c later before far => decide_eq_true (h.solid i inside c later (by omega) (by omega))) (by omega)
      (fun before => ?_)
    · exact h.empty_between inside before fun k next => Nat.le_trans (behind k next) later
    · -- the last piece ends where the columns do
      have next : i + 1 < n := by
        by_contra none
        have final : i = n - 1 := by omega
        have end' := h.last
        rw [← final] at end'
        omega
      have apart := h.apart i next
      refine ⟨by omega, decide_eq_false (h.empty_between next apart fun k same => ?_)⟩
      obtain rfl : k = i := by omega
      exact Nat.le_max_left _ _
  rw [found, Nat.add_sub_cancel' (show j ≤ last by omega)]

/-- **The segments** of the labels from the `i`-th on. -/
theorem cut_drop [DecidablePred full] (h : Pieces full m last n s e) (labels : List α) (i : Nat) {j : Nat}
    (count : i + labels.length = n) (le : i < n → j ≤ s i) (behind : ∀ k, k + 1 = i → e k ≤ j) :
    cut (fun c => decide (full c)) m last labels j =
      (labels.zipIdx i).map fun x => (x.1, s x.2, min (max (e x.2) (s x.2 + m + 1)) last) := by
  induction labels generalizing i j with
  | nil => rfl
  | cons a labels ih =>
    rw [List.length_cons] at count
    have inside : i < n := by omega
    have own := h.lt inside
    have most := h.le_last inside
    have start := le inside
    rw [cut, if_pos (show j < last by omega), h.scan_eq inside start behind, List.zipIdx_cons, List.map_cons]
    refine congrArg (List.cons _) (ih (i + 1) (by omega) ?_ ?_)
    · intro next
      have apart := h.apart i next
      omega
    · intro k same
      obtain rfl : k = i := by omega
      omega

/-- **A row of pieces is cut into them.** -/
theorem cut_eq [DecidablePred full] (h : Pieces full m last n s e) (labels : List α) (count : labels.length = n)
    {j : Nat} (le : 0 < n → j ≤ s 0) :
    cut (fun c => decide (full c)) m last labels j =
      labels.zipIdx.map fun x => (x.1, s x.2, min (max (e x.2) (s x.2 + m + 1)) last) :=
  h.cut_drop labels 0 (by omega) le fun k next => absurd next (Nat.succ_ne_zero k)

end Pieces

end Lavoro.Lib
