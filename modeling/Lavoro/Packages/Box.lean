import Mathlib.Data.List.Perm.Basic
import Mathlib.Data.Multiset.Range
import Mathlib.Data.Sym.Sym2
import Lavoro.Lib.Arrangement
import Lavoro.Lib.Backtrack

/-!
# The package Box (`packages/ACM/Box.cpp`)

Six rectangles are given by their sides `a[i][0]` and `a[i][1]`. `box` tries every order `q` of
them and, once all six are placed, every way `m` to turn them; `check` compares the sides that
meet in an edge of the box according to the table `f`. `Box_Main` passes `q` itself for `p`, so
there is one array for both.
-/

namespace Lavoro.Box
open Lib

/-- `f[i][j]`: which side of place `i` meets which side of place `j`. -/
def f : List (List (Int × Int)) :=
  [[(-1, -1), (1, 0), (0, 0), (0, 0), (1, 1), (-1, -1)],
   [(0, 1), (-1, -1), (1, 1), (1, 1), (-1, -1), (0, 0)],
   [(0, 0), (1, 1), (-1, -1), (-1, -1), (1, 0), (0, 1)],
   [(0, 0), (1, 1), (-1, -1), (-1, -1), (1, 0), (0, 1)],
   [(1, 1), (-1, -1), (0, 1), (0, 1), (-1, -1), (1, 0)],
   [(-1, -1), (0, 0), (1, 0), (1, 0), (0, 1), (-1, -1)]]

def edge (i j : Nat) : Int × Int := (f.getD i []).getD j (-1, -1)

/-- `a[q[i]][k ^ ((m >> i) & 1)]`. -/
def side (a : Nat → Nat → Int) (q : Nat → Nat) (m i : Nat) (k : Int) : Int :=
  a (q i) (k.toNat ^^^ ((m >>> i) &&& 1))

/-- `check(m)`. -/
def check (a : Nat → Nat → Int) (q : Nat → Nat) (m : Nat) : Bool :=
  (List.range 6).all fun i => (List.range 6).all fun j =>
    (edge i j).1 == -1 || side a q m i (edge i j).1 == side a q m j (edge i j).2

/-- The arrays of the search: which rectangles are placed, and what is at each place. -/
structure Search where
  e : Nat → Bool
  q : Nat → Nat

namespace Search

/-- `p[s] = i; e[i] = 1;` -/
def place (st : Search) (s i : Nat) : Search :=
  ⟨Function.update st.e i true, Function.update st.q s i⟩

/-- `e[i] = 0;` -/
def free (st : Search) (i : Nat) : Search := { st with e := Function.update st.e i false }

/-- `for(i = 0;i < 6;i++) q[i] = p[i];`, where `p` is `q`. -/
def copy (st : Search) : Search :=
  { st with q := (List.range 6).foldl (fun q i => Function.update q i (q i)) st.q }

end Search

/-- The body of the loop of `box` at `s`; `box` is the call behind it. -/
def turn (box : Search → Bool × Search) (s i : Nat) (st : Search) : Bool × Search :=
  if st.e i then (false, st)
  else
    let r := box (st.place s i)
    if r.1 then r else (false, r.2.free i)

/-- `box(6 - left, e, p)`: what it returns, and the arrays it leaves. -/
def box (a : Nat → Nat → Int) : Nat → Search → Bool × Search
  | 0, st => ((List.range 64).any (check a st.copy.q), st.copy)
  | left + 1, st => anyOf (turn (box a left) (5 - left)) (List.range 6) st

/-- `box(0, e, q)` as `Box_Main` calls it, whatever `q` holds. -/
def possible (a : Nat → Nat → Int) (q : Nat → Nat) : Bool := (box a 6 ⟨fun _ => false, q⟩).1

/-! ## What `check` compares -/

/-- The faces of the box that the table describes, place by place. -/
def faces (x y z : Int) : List (Int × Int) := [(x, z), (z, y), (x, y), (x, y), (y, z), (z, x)]

theorem check_iff {a : Nat → Nat → Int} {q : Nat → Nat} {m : Nat} :
    check a q m = true ↔
      ∃ x y z, (List.range 6).map (fun i => (side a q m i 0, side a q m i 1)) = faces x y z := by
  -- the sides that meet in an edge form three classes, of eight sides each
  simp only [check, edge, f, faces, List.range_succ, List.range_zero]
  simp
  grind

theorem check_congr {a : Nat → Nat → Int} {q q' : Nat → Nat} {m : Nat}
    (same : ∀ i, i < 6 → q i = q' i) : check a q m = check a q' m := by
  rw [Bool.eq_iff_iff, check_iff, check_iff]
  have sides : (List.range 6).map (fun i => (side a q m i 0, side a q m i 1)) =
      (List.range 6).map fun i => (side a q' m i 0, side a q' m i 1) := by
    apply List.map_congr_left
    intro i mem
    simp only [side, same i (List.mem_range.1 mem)]
  rw [sides]

/-! ## The ways to turn the rectangles -/

/-- The sides of a rectangle, in no order. -/
def pair (a : Nat → Nat → Int) (i : Nat) : Sym2 Int := s(a i 0, a i 1)

theorem bit_cases (m i : Nat) : (m >>> i) &&& 1 = 0 ∨ (m >>> i) &&& 1 = 1 := by
  rw [Nat.and_one_is_mod]
  omega

/-- A rectangle is turned or it is not. -/
theorem pair_turned (a : Nat → Nat → Int) (q : Nat → Nat) (m i : Nat) :
    s(side a q m i 0, side a q m i 1) = pair a (q i) := by
  rcases bit_cases m i with h | h
  · simp [side, pair, h]
  · simp [side, pair, h, Sym2.eq_swap]

/-- Six bits make a mask. -/
theorem exists_mask (turned : Nat → Bool) :
    ∃ m < 64, ∀ i, i < 6 → (m >>> i) &&& 1 = (turned i).toNat := by
  let mask (b : List Bool) : Nat := b.foldr (fun bit m => 2 * m + bit.toNat) 0
  have masks : ∀ b₀ b₁ b₂ b₃ b₄ b₅ : Bool, mask [b₀, b₁, b₂, b₃, b₄, b₅] < 64 ∧ ∀ i, i < 6 →
      (mask [b₀, b₁, b₂, b₃, b₄, b₅] >>> i) &&& 1 = ([b₀, b₁, b₂, b₃, b₄, b₅].getD i false).toNat := by
    decide +kernel
  obtain ⟨lt, bits⟩ := masks (turned 0) (turned 1) (turned 2) (turned 3) (turned 4) (turned 5)
  refine ⟨_, lt, ?_⟩
  intro i below
  rw [bits i below]
  rcases i with _ | _ | _ | _ | _ | _ | i
  all_goals first | rfl | omega

/-- Rectangles that are the faces but for their turns are turned to them by some mask. -/
theorem exists_turn {a : Nat → Nat → Int} {q : Nat → Nat} {face : Nat → Int × Int}
    (pairs : ∀ i, i < 6 → pair a (q i) = s((face i).1, (face i).2)) :
    ∃ m < 64, ∀ i, i < 6 → (side a q m i 0, side a q m i 1) = face i := by
  obtain ⟨m, lt, bits⟩ := exists_mask fun i => decide (a (q i) 0 ≠ (face i).1)
  refine ⟨m, lt, ?_⟩
  intro i below
  have same := Sym2.eq_iff.1 (pairs i below)
  by_cases first : a (q i) 0 = (face i).1
  · have second : a (q i) 1 = (face i).2 := by grind
    simp [side, bits i below, first, second]
  · have crossed : a (q i) 0 = (face i).2 ∧ a (q i) 1 = (face i).1 :=
      same.resolve_left fun h => first h.1
    simp [side, bits i below, first, crossed.2]
    exact Prod.ext rfl crossed.1

/-- **Some way to turn the rectangles fits**, when these are the faces in order. -/
theorem any_check_iff {a : Nat → Nat → Int} {q : Nat → Nat} :
    (List.range 64).any (check a q) = true ↔
      ∃ x y z, (List.range 6).map (fun i => pair a (q i)) = (faces x y z).map fun s => s(s.1, s.2) := by
  rw [List.any_eq_true]
  constructor
  · rintro ⟨m, -, fits⟩
    obtain ⟨x, y, z, sides⟩ := check_iff.1 fits
    refine ⟨x, y, z, ?_⟩
    rw [← sides, List.map_map]
    apply List.map_congr_left
    intro i _
    exact (pair_turned a q m i).symm
  · rintro ⟨x, y, z, pairs⟩
    have inOrder : (List.range 6).map (fun i => (faces x y z).getD i (0, 0)) = faces x y z := rfl
    rw [← inOrder, List.map_map, List.map_inj_left] at pairs
    obtain ⟨m, lt, turned⟩ := exists_turn fun i below => pairs i (List.mem_range.2 below)
    refine ⟨m, List.mem_range.2 lt, check_iff.2 ⟨x, y, z, ?_⟩⟩
    rw [← inOrder]
    apply List.map_congr_left
    intro i mem
    exact turned i (List.mem_range.1 mem)

/-! ## The search -/

theorem copy_eq (st : Search) : st.copy = st := by
  have idle : ∀ (cells : List Nat) (q : Nat → Nat),
      cells.foldl (fun q i => Function.update q i (q i)) q = q := by
    intro cells
    induction cells with
    | nil => exact fun q => rfl
    | cons i cells ih =>
      intro q
      rw [List.foldl_cons, Function.update_eq_self]
      exact ih q
  rw [Search.copy, idle]

/-- The first `s` places of `q` can be kept, and the others filled so that it fits. -/
def Solvable (a : Nat → Nat → Int) (s : Nat) (q : Nat → Nat) : Prop :=
  ∃ q' : Nat → Nat, (∀ j, j < s → q' j = q j) ∧ (firstCells 6 q').Perm (List.range 6) ∧
    (List.range 64).any (check a q') = true

theorem solvable_congr {a : Nat → Nat → Int} {s : Nat} {q q' : Nat → Nat}
    (same : ∀ j, j < s → q j = q' j) : Solvable a s q ↔ Solvable a s q' := by
  constructor
  · rintro ⟨r, kept, fits⟩
    exact ⟨r, fun j lt => (kept j lt).trans (same j lt), fits⟩
  · rintro ⟨r, kept, fits⟩
    exact ⟨r, fun j lt => (kept j lt).trans (same j lt).symm, fits⟩

/-- One more place is filled, with a rectangle that is free. -/
theorem solvable_iff {a : Nat → Nat → Int} {s : Nat} {e : Nat → Bool} {q : Nat → Nat} (lt : s < 6)
    (h : Arrangement 6 e (firstCells s q)) :
    Solvable a s q ↔
      ∃ i ∈ List.range 6, e i = false ∧ Solvable a (s + 1) (Function.update q s i) := by
  constructor
  · rintro ⟨q', kept, perm, fits⟩
    have member : q' s ∈ List.range 6 := perm.subset (mem_firstCells.2 ⟨s, lt, rfl⟩)
    refine ⟨q' s, member, ?_, q', ?_, perm, fits⟩
    · -- the order has no repetition, so what it has at `s` is not among what is placed
      apply Bool.eq_false_iff.2
      intro placed
      obtain ⟨j, before, eq⟩ := mem_firstCells.1 ((h.marks _ (List.mem_range.1 member)).1 placed)
      rw [← kept j before] at eq
      have nodup : (firstCells 6 q').Nodup := perm.nodup_iff.2 List.nodup_range
      have inj := List.inj_on_of_nodup_map nodup (List.mem_range.2 (by omega : j < 6))
        (List.mem_range.2 lt) eq
      omega
    · intro j below
      by_cases eq : j = s
      · simp [eq]
      · rw [Function.update_of_ne eq]
        exact kept j (by omega)
  · rintro ⟨i, -, -, q', kept, fits⟩
    refine ⟨q', ?_, fits⟩
    intro j below
    rw [kept j (by omega), Function.update_of_ne (by omega)]

/-- What a call leaves when it returns 0: the flags, and the places that were filled before. -/
def Search.Kept (st : Search) (s : Nat) (st' : Search) : Prop :=
  st'.e = st.e ∧ ∀ j, j < s → st'.q j = st.q j

theorem Search.Kept.solvable {a : Nat → Nat → Int} {s i : Nat} {st st' : Search} (h : st.Kept s st') :
    Solvable a (s + 1) (st'.place s i).q ↔ Solvable a (s + 1) (Function.update st.q s i) := by
  apply solvable_congr
  intro j lt
  by_cases eq : j = s
  · simp [Search.place, eq]
  · simp [Search.place, eq, h.2 j (by omega)]

/-- What is taken back is what was there. -/
theorem Search.Kept.free {s i : Nat} {st st' st'' : Search} (h : st.Kept s st')
    (free : st.e i = false) (failed : (st'.place s i).Kept (s + 1) st'') :
    st.Kept s (st''.free i) := by
  refine ⟨?_, ?_⟩
  · simp only [Search.free, failed.1, Search.place, Function.update_idem, h.1]
    rw [← free, Function.update_eq_self]
  · intro j lt
    have eq := failed.2 j (by omega)
    simp only [Search.place] at eq
    rw [Function.update_of_ne (by omega)] at eq
    exact eq.trans (h.2 j lt)

/-- What a call at place `s` is worth: it finds what can be found, and takes back what it did when
there is nothing. -/
def Finds (a : Nat → Nat → Int) (call : Search → Bool × Search) (s : Nat) : Prop :=
  ∀ st : Search, Arrangement 6 st.e (firstCells s st.q) →
    ((call st).1 = true ↔ Solvable a s st.q) ∧ ((call st).1 = false → st.Kept s (call st).2)

/-- One turn of the loop tries one rectangle. -/
theorem turn_iff {a : Nat → Nat → Int} {call : Search → Bool × Search} {s i : Nat} {st st' : Search}
    (behind : Finds a call (s + 1)) (h : Arrangement 6 st.e (firstCells s st.q)) (below : i < 6)
    (kept : st.Kept s st') :
    ((turn call s i st').1 = true ↔
        st.e i = false ∧ Solvable a (s + 1) (Function.update st.q s i)) ∧
      ((turn call s i st').1 = false → st.Kept s (turn call s i st').2) := by
  unfold turn
  rw [kept.1]
  by_cases used : st.e i = true
  · simp [used, kept]
  · have free := Bool.eq_false_iff.2 used
    have placed : Arrangement 6 (st'.place s i).e (firstCells (s + 1) (st'.place s i).q) := by
      simp only [Search.place]
      rw [kept.1, firstCells_update_self, firstCells_congr kept.2]
      exact h.place below free
    obtain ⟨found, failed⟩ := behind _ placed
    rw [kept.solvable] at found
    rw [if_neg used]
    by_cases won : (call (st'.place s i)).1 = true
    · simp [won, free, found.1 won]
    · have lost := Bool.eq_false_iff.2 won
      simp only [lost, Bool.false_eq_true, if_false, false_iff, forall_const]
      exact ⟨fun h => won (found.2 h.2), kept.free free (failed lost)⟩

theorem box_finds (a : Nat → Nat → Int) {left : Nat} (le : left ≤ 6) :
    Finds a (box a left) (6 - left) := by
  induction left with
  | zero =>
    intro st h
    simp only [box, copy_eq]
    refine ⟨⟨fun fits => ?_, ?_⟩, fun _ => ⟨rfl, fun _ _ => rfl⟩⟩
    · exact ⟨st.q, fun _ _ => rfl, h.perm_of_length (by simp), fits⟩
    · rintro ⟨q', kept, -, fits⟩
      obtain ⟨m, mem, fit⟩ := List.any_eq_true.1 fits
      rw [check_congr kept] at fit
      exact List.any_eq_true.2 ⟨m, mem, fit⟩
  | succ left ih =>
    intro st h
    have next : 6 - (left + 1) = 5 - left := by omega
    have level : 6 - left = 5 - left + 1 := by omega
    rw [next] at h ⊢
    have behind := ih (by omega)
    rw [level] at behind
    have each : ∀ i ∈ List.range 6, ∀ st', st.Kept (5 - left) st' → _ := fun i mem st' kept =>
      turn_iff behind h (List.mem_range.1 mem) kept
    have tried := anyOf_iff each ⟨rfl, fun _ _ => rfl⟩
    exact ⟨tried.1.trans (solvable_iff (by omega) h).symm, tried.2⟩

/-- A list of values in another order is the values of the arguments in another order. -/
theorem exists_order {α : Type} {values : List α} {g : Nat → α} {n : Nat}
    (perm : values.Perm ((List.range n).map g)) :
    ∃ q : Nat → Nat, (firstCells n q).Perm (List.range n) ∧ (List.range n).map (g ∘ q) = values := by
  have composed : Relation.Comp (· = List.map g ·) List.Perm values (List.range n) := by
    rw [List.eq_map_comp_perm]
    exact perm
  obtain ⟨order, eq, reordered⟩ := composed
  have cells : firstCells n (fun i => order.getD i 0) = order := by
    apply List.ext_getElem
    · simpa using reordered.length_eq.symm
    · intro i _ lt
      simp [firstCells, lt]
  refine ⟨fun i => order.getD i 0, ?_, ?_⟩
  · rw [cells]
    exact reordered
  · rw [eq, ← List.map_map]
    exact congrArg (List.map g) cells

theorem solvable_zero_iff {a : Nat → Nat → Int} {q : Nat → Nat} :
    Solvable a 0 q ↔ ∃ x y z, ((List.range 6).map (pair a)).Perm
      ((faces x y z).map fun s => s(s.1, s.2)) := by
  constructor
  · rintro ⟨q', -, perm, fits⟩
    obtain ⟨x, y, z, eq⟩ := any_check_iff.1 fits
    refine ⟨x, y, z, ?_⟩
    rw [← eq]
    have ordered := (perm.map (pair a)).symm
    rwa [firstCells, List.map_map] at ordered
  · rintro ⟨x, y, z, perm⟩
    obtain ⟨q', ordered, eq⟩ := exists_order perm.symm
    exact ⟨q', fun j lt => absurd lt (Nat.not_lt_zero j), ordered, any_check_iff.2 ⟨x, y, z, eq⟩⟩

/-- The pairs of the faces, each twice. -/
theorem faces_perm (x y z : Int) : ((faces x y z).map fun s => s(s.1, s.2)).Perm
    [s(x, y), s(x, y), s(y, z), s(y, z), s(x, z), s(x, z)] := by
  simp only [faces, List.map_cons, List.map_nil]
  rw [Sym2.eq_swap (a := z) (b := y), Sym2.eq_swap (a := z) (b := x)]
  apply List.perm_iff_count.2
  intro side
  simp only [List.count_cons, List.count_nil]
  omega

/-- **Box decides its problem.** -/
theorem possible_iff_cuboid (a : Nat → Nat → Int) (q : Nat → Nat) :
    possible a q = true ↔ ∃ x y z : Int,
      Multiset.map (fun i => s(a i 0, a i 1)) (Multiset.range 6) =
        {s(x, y), s(x, y), s(y, z), s(y, z), s(x, z), s(x, z)} := by
  have nothing : Arrangement 6 (fun _ => false) (firstCells 0 q) := Arrangement.nil fun _ _ => rfl
  apply ((box_finds a (Nat.le_refl 6) ⟨fun _ => false, q⟩ nothing).1).trans
  apply solvable_zero_iff.trans
  apply exists₃_congr
  intro x y z
  apply Iff.trans ⟨fun h => h.trans (faces_perm x y z), fun h => h.trans (faces_perm x y z).symm⟩
  exact Multiset.coe_eq_coe.symm

end Lavoro.Box
