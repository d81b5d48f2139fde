import Mathlib.Data.Finset.NAry
import Mathlib.Data.Set.Card
import Mathlib.Data.Set.Finite.Lattice
import Mathlib.Order.Interval.Finset.Nat

/-!
# Ordered trees and their walks

The walk of a tree is the label of its root, and again that label behind the walk of each
child. A tree with children is a first child and what is left without it (`graft`), and its
walk is the root's label followed by the walks of both; so the number of the trees that have a
given walk is a sum over the places where the first child may end (`count_of_lt`).
-/

namespace Lavoro.Lib

/-- A rooted tree with labelled nodes, the children of a node in order. -/
inductive OrderedTree (α : Type) where
  | node (label : α) (children : List (OrderedTree α))

namespace OrderedTree

variable {α : Type}

mutual

/-- The label on arrival, and again after returning from each child. -/
def walk : OrderedTree α → List α
  | .node a children => a :: walkFrom a children

/-- The walk through the children of a node labelled `a`. -/
def walkFrom (a : α) : List (OrderedTree α) → List α
  | [] => []
  | c :: rest => c.walk ++ a :: walkFrom a rest

end

def root : OrderedTree α → α
  | .node a _ => a

/-- The tree with another child before all others. -/
def graft (c : OrderedTree α) : OrderedTree α → OrderedTree α
  | .node a children => .node a (c :: children)

theorem walk_leaf (a : α) : (node a []).walk = [a] := by
  rw [walk, walkFrom]

theorem walk_cons (t : OrderedTree α) : ∃ rest, t.walk = t.root :: rest := by
  cases t with
  | node a children => exact ⟨_, by rw [walk]; rfl⟩

theorem walk_ne_nil (t : OrderedTree α) : t.walk ≠ [] := by
  obtain ⟨rest, walk⟩ := t.walk_cons
  rw [walk]
  exact List.cons_ne_nil _ _

theorem walk_graft (c t : OrderedTree α) : (c.graft t).walk = t.root :: (c.walk ++ t.walk) := by
  cases t with
  | node a children => rw [graft, walk, walkFrom, walk, root]

theorem graft_injective : Function.Injective2 (@graft α) := by
  rintro c c' ⟨a, children⟩ ⟨a', children'⟩ same
  cases same
  exact ⟨rfl, rfl⟩

/-- A tree is a leaf or has a first child. -/
theorem leaf_or_graft (t : OrderedTree α) : (∃ a, t = node a []) ∨ ∃ c u, t = graft c u := by
  obtain ⟨a, _ | ⟨c, rest⟩⟩ := t
  · exact .inl ⟨a, rfl⟩
  · exact .inr ⟨c, node a rest, rfl⟩

end OrderedTree

open OrderedTree

variable {α : Type} (S : Nat → α)

/-- `S[l .. r]`. -/
def stretch (l r : Nat) : List α := (List.range' l (r + 1 - l)).map S

/-- The trees whose walk is `S[l .. r]`. -/
def walks (l r : Nat) : Set (OrderedTree α) := {t | t.walk = stretch S l r}

/-- The number of the trees whose walk is `S[l .. r]`. -/
noncomputable def count (l r : Nat) : Nat := (walks S l r).ncard

variable {S} {l r : Nat}

theorem length_stretch (S : Nat → α) (l r : Nat) : (stretch S l r).length = r + 1 - l := by
  rw [stretch, List.length_map, List.length_range']

theorem stretch_cons (le : l ≤ r) : stretch S l r = S l :: stretch S (l + 1) r := by
  rw [stretch, stretch, show r + 1 - l = r + 1 - (l + 1) + 1 by omega, List.range'_succ, List.map_cons]

/-- `S[l .. r]` cut before `l + k`. -/
theorem stretch_append {k : Nat} (some : 0 < l + k) (le : l + k ≤ r + 1) :
    stretch S l (l + k - 1) ++ stretch S (l + k) r = stretch S l r := by
  unfold stretch
  rw [← List.map_append, show l + k - 1 + 1 - l = k by omega, List.range'_append_1,
    show k + (r + 1 - (l + k)) = r + 1 - l by omega]

theorem walks_of_gt (gt : r < l) : walks S l r = ∅ := by
  refine Set.eq_empty_of_forall_notMem fun t walk => ?_
  have length := congrArg List.length (show t.walk = _ from walk)
  have some := List.length_pos_iff.2 t.walk_ne_nil
  rw [length_stretch] at length
  omega

theorem walks_self : walks S l l = {node (S l) []} := by
  have single : stretch S l l = [S l] := by
    rw [stretch, Nat.add_sub_cancel_left]
    rfl
  ext t
  show t.walk = stretch S l l ↔ t ∈ _
  rw [single, Set.mem_singleton_iff]
  constructor
  · intro walk
    rcases leaf_or_graft t with ⟨a, rfl⟩ | ⟨c, u, rfl⟩
    · rw [walk_leaf] at walk
      rw [List.head_eq_of_cons_eq walk]
    · rw [walk_graft] at walk
      have rest := List.append_eq_nil_iff.1 (List.tail_eq_of_cons_eq walk)
      exact absurd rest.1 c.walk_ne_nil
  · rintro rfl
    exact walk_leaf _

/-- **The first child** of a tree ends at some place where the root's label stands again. -/
theorem mem_walks_of_lt (lt : l < r) {t : OrderedTree α} :
    t ∈ walks S l r ↔ ∃ k, k < r - l ∧ S (l + 1 + k) = S l ∧
      ∃ c ∈ walks S (l + 1) (l + k), ∃ u ∈ walks S (l + 1 + k) r, graft c u = t := by
  have cut (k : Nat) (inside : k < r - l) :
      stretch S (l + 1) (l + k) ++ stretch S (l + 1 + k) r = stretch S (l + 1) r := by
    have append := stretch_append (S := S) (l := l + 1) (r := r) (k := k) (by omega) (by omega)
    rwa [show l + 1 + k - 1 = l + k by omega] at append
  -- the root of the rest
  have first {k : Nat} (inside : k < r - l) {u : OrderedTree α} (walk : u.walk = stretch S (l + 1 + k) r) :
      u.root = S (l + 1 + k) := by
    obtain ⟨rest, cons⟩ := u.walk_cons
    rw [cons, stretch_cons (by omega)] at walk
    exact List.head_eq_of_cons_eq walk
  constructor
  · intro walk
    have walk : t.walk = stretch S l r := walk
    rcases leaf_or_graft t with ⟨a, rfl⟩ | ⟨c, u, rfl⟩
    · have length := congrArg List.length walk
      rw [walk_leaf, length_stretch, List.length_singleton] at length
      omega
    · rw [walk_graft, stretch_cons (Nat.le_of_lt lt)] at walk
      obtain ⟨label, behind⟩ := List.cons_eq_cons.1 walk
      have total := congrArg List.length behind
      have some := List.length_pos_iff.2 u.walk_ne_nil
      rw [List.length_append, length_stretch] at total
      have inside : c.walk.length < r - l := by omega
      have length : c.walk.length = (stretch S (l + 1) (l + c.walk.length)).length := by
        rw [length_stretch]
        omega
      obtain ⟨left, right⟩ := List.append_inj (behind.trans (cut _ inside).symm) length
      exact ⟨_, inside, (first inside right).symm.trans label, c, left, u, right, rfl⟩
  · rintro ⟨k, inside, again, c, left, u, right, rfl⟩
    have left : c.walk = _ := left
    have right : u.walk = _ := right
    show (graft c u).walk = _
    rw [walk_graft, first inside right, again, left, right, cut k inside, stretch_cons (Nat.le_of_lt lt)]

theorem walks_finite (S : Nat → α) (l r : Nat) : (walks S l r).Finite := by
  induction h : r + 1 - l using Nat.strong_induction_on generalizing l r with
  | _ n ih =>
    subst h
    rcases Nat.lt_trichotomy l r with lt | rfl | gt
    · have all : walks S l r ⊆ ⋃ k ∈ Finset.range (r - l),
          Set.image2 graft (walks S (l + 1) (l + k)) (walks S (l + 1 + k) r) := by
        intro t mem
        obtain ⟨k, inside, -, c, left, u, right, rfl⟩ := (mem_walks_of_lt lt).1 mem
        exact Set.mem_biUnion (Finset.mem_range.2 inside) (Set.mem_image2_of_mem left right)
      refine Set.Finite.subset (Set.Finite.biUnion (Finset.finite_toSet _) fun k mem => ?_) all
      have inside := Finset.mem_range.1 mem
      exact (ih _ (by omega) _ _ rfl).image2 graft (ih _ (by omega) _ _ rfl)
    · rw [walks_self]
      exact Set.finite_singleton _
    · rw [walks_of_gt gt]
      exact Set.finite_empty

theorem count_of_gt (gt : r < l) : count S l r = 0 := by
  rw [count, walks_of_gt gt, Set.ncard_empty]

theorem count_self : count S l l = 1 := by
  rw [count, walks_self, Set.ncard_singleton]

/-- The trees whose first child ends before one of the first `n` places. -/
noncomputable def splits [DecidableEq α] (S : Nat → α) (l r n : Nat) : Nat :=
  ∑ k ∈ Finset.range n, if S (l + 1 + k) = S l then count S (l + 1) (l + k) * count S (l + 1 + k) r else 0

/-- **The number of the trees** with more than one node. -/
theorem count_of_lt [DecidableEq α] (lt : l < r) : count S l r = splits S l r (r - l) := by
  classical
  let trees (l r : Nat) : Finset (OrderedTree α) := (walks_finite S l r).toFinset
  have card (l r : Nat) : count S l r = (trees l r).card := Set.ncard_eq_toFinset_card _ (walks_finite S l r)
  have union : trees l r = ((Finset.range (r - l)).filter fun k => S (l + 1 + k) = S l).biUnion fun k =>
      Finset.image₂ graft (trees (l + 1) (l + k)) (trees (l + 1 + k) r) := by
    ext t
    simp only [trees, Set.Finite.mem_toFinset, mem_walks_of_lt lt, Finset.mem_biUnion, Finset.mem_filter,
      Finset.mem_range, Finset.mem_image₂, and_assoc]
  rw [card, union, Finset.card_biUnion, Finset.sum_filter, splits]
  · refine Finset.sum_congr rfl fun k _ => ?_
    rw [Finset.card_image₂ graft_injective, ← card, ← card]
  · -- the length of the first child's walk tells the place
    intro i _ j _ differ
    rw [Function.onFun, Finset.disjoint_left]
    intro t left right
    obtain ⟨c, hc, u, -, rfl⟩ := Finset.mem_image₂.1 left
    obtain ⟨c', hc', u', -, same⟩ := Finset.mem_image₂.1 right
    obtain ⟨rfl, -⟩ := graft_injective same
    have walk : c' ∈ walks S (l + 1) (l + i) := (Set.Finite.mem_toFinset _).1 hc
    have walk' : c' ∈ walks S (l + 1) (l + j) := (Set.Finite.mem_toFinset _).1 hc'
    have length := congrArg List.length ((show c'.walk = _ from walk).symm.trans walk')
    rw [length_stretch, length_stretch] at length
    omega

end Lavoro.Lib
