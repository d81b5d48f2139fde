import Mathlib.Data.List.Basic

/-!
# Doubly linked lists

`Links` are the pointers of the nodes to their neighbours and the pointer to the first
node. They represent a list when every node of it points to its neighbours there and every
other node to nothing. Linking a node in at the head and unlinking any node are done by
pointer assignments; the rules are `Represents.push` and `Represents.unlink`, and
`Represents.linked_iff` says how to see from the pointers whether a node is linked.
-/

namespace Lavoro.Lib

@[ext] structure Links (Node : Type) where
  head : Option Node
  left : Node → Option Node
  right : Node → Option Node

namespace Links

variable {Node : Type} [DecidableEq Node]

/-- The left pointer of `a`, if there is one. -/
def setLeft (l : Links Node) (a : Option Node) (p : Option Node) : Links Node :=
  { l with left := fun b => if a = some b then p else l.left b }

/-- The right pointer of `a`, if there is one. -/
def setRight (l : Links Node) (a : Option Node) (p : Option Node) : Links Node :=
  { l with right := fun b => if a = some b then p else l.right b }

/-- `a` is linked in before the head. -/
def push (l : Links Node) (a : Node) : Links Node :=
  { (l.setRight (some a) l.head).setLeft l.head (some a) with head := some a }

/-- `a` is linked out. -/
def unlink (l : Links Node) (a : Node) : Links Node :=
  { (((l.setRight (l.left a) (l.right a)).setLeft (l.right a) (l.left a)).setLeft (some a)
      none).setRight (some a) none with
    head := if l.head = some a then l.right a else l.head }

/-- The links represent the list `q`. -/
structure Represents (l : Links Node) (q : List Node) : Prop where
  head : l.head = q.head?
  nodup : q.Nodup
  inside : ∀ xs a ys, q = xs ++ a :: ys → l.left a = xs.getLast? ∧ l.right a = ys.head?
  outside : ∀ a, a ∉ q → l.left a = none ∧ l.right a = none

variable {l : Links Node} {q : List Node} {a : Node}

omit [DecidableEq Node] in
/-- No node is linked. -/
theorem Represents.empty (head : l.head = none) (left : ∀ a, l.left a = none)
    (right : ∀ a, l.right a = none) : l.Represents [] where
  head := head
  nodup := List.nodup_nil
  inside xs a ys h := by
    rcases xs with _ | _ <;> cases h
  outside a _ := ⟨left a, right a⟩

omit [DecidableEq Node] in
/-- A node is linked if it has a neighbour or is the head. -/
theorem Represents.linked_iff (h : l.Represents q) (a : Node) :
    (l.left a ≠ none ∨ l.right a ≠ none ∨ l.head = some a) ↔ a ∈ q := by
  constructor
  · intro linked
    by_contra out
    obtain ⟨left, right⟩ := h.outside a out
    rcases linked with some | some | first
    · exact some left
    · exact some right
    · rw [h.head] at first
      exact out (List.mem_of_mem_head? first)
  · intro mem
    obtain ⟨xs, ys, rfl⟩ := List.append_of_mem mem
    obtain ⟨left, -⟩ := h.inside xs a ys rfl
    cases xs with
    | nil => exact .inr (.inr h.head)
    | cons b xs =>
      refine .inl ?_
      rw [left]
      simp

omit [DecidableEq Node] in
/-- The pointers to the left and to the right are inverse to one another. -/
theorem Represents.right_iff_left (h : l.Represents q) {b : Node} :
    l.right a = some b ↔ l.left b = some a := by
  constructor
  · intro right
    by_cases mem : a ∈ q
    · obtain ⟨xs, ys, split⟩ := List.append_of_mem mem
      have first : ys.head? = some b := (h.inside xs a ys split).2.symm.trans right
      obtain ⟨zs, rfl⟩ := List.head?_eq_some_iff.1 first
      have next : q = (xs ++ [a]) ++ b :: zs := by simp [split]
      rw [(h.inside _ b zs next).1, List.getLast?_concat]
    · rw [(h.outside a mem).2] at right
      cases right
  · intro left
    by_cases mem : b ∈ q
    · obtain ⟨xs, ys, split⟩ := List.append_of_mem mem
      have last : xs.getLast? = some a := (h.inside xs b ys split).1.symm.trans left
      obtain ⟨zs, rfl⟩ := List.getLast?_eq_some_iff.1 last
      have before : q = zs ++ a :: b :: ys := by simp [split]
      rw [(h.inside zs a (b :: ys) before).2, List.head?_cons]
    · rw [(h.outside b mem).1] at left
      cases left

/-- **Linking in** a node that is not in the list. -/
theorem Represents.push (h : l.Represents q) (out : a ∉ q) : (l.push a).Represents (a :: q) where
  head := rfl
  nodup := List.nodup_cons.2 ⟨out, h.nodup⟩
  inside xs b ys split := by
    rcases xs with _ | ⟨c, xs⟩
    · obtain ⟨rfl, rfl⟩ := List.cons.inj split
      have apart : l.head ≠ some a := by
        rw [h.head]
        exact fun first => out (List.mem_of_mem_head? first)
      have left := (h.outside a out).1
      exact ⟨by simp [Links.push, setLeft, setRight, apart, left],
        by simp [Links.push, setLeft, setRight, h.head]⟩
    · obtain ⟨rfl, rfl⟩ := List.cons.inj split
      have other : a ≠ b := by
        rintro rfl
        exact out (by simp)
      obtain ⟨left, right⟩ := h.inside xs b ys rfl
      refine ⟨?_, by simp [Links.push, setLeft, setRight, other, right]⟩
      cases xs with
      | nil => simp [Links.push, setLeft, h.head]
      | cons c xs =>
        have first : l.head ≠ some b := by
          rw [h.head]
          rintro same
          cases same
          exact absurd h.nodup (by simp)
        have last : (a :: c :: xs).getLast? = (c :: xs).getLast? := by simp
        rw [last, ← left]
        simp [Links.push, setLeft, setRight, first]
  outside b out' := by
    obtain ⟨other, out''⟩ := not_or.1 (mt List.mem_cons.2 out')
    have first : l.head ≠ some b := by
      rw [h.head]
      exact fun first => out'' (List.mem_of_mem_head? first)
    obtain ⟨left, right⟩ := h.outside b out''
    exact ⟨by simp [Links.push, setLeft, setRight, first, left],
      by simp [Links.push, setLeft, setRight, Ne.symm other, right]⟩

/-- Linking out a node that is not in the list changes nothing. -/
theorem Represents.unlink_outside (h : l.Represents q) (out : a ∉ q) : l.unlink a = l := by
  obtain ⟨left, right⟩ := h.outside a out
  have first : l.head ≠ some a := by
    rw [h.head]
    exact fun first => out (List.mem_of_mem_head? first)
  have keepLeft : ∀ b, (if a = b then none else l.left b) = l.left b := by
    intro b
    split
    · rename_i same
      rw [← same, left]
    · rfl
  have keepRight : ∀ b, (if a = b then none else l.right b) = l.right b := by
    intro b
    split
    · rename_i same
      rw [← same, right]
    · rfl
  simp [Links.unlink, setLeft, setRight, left, right, first, keepLeft, keepRight]

section Unlink

variable {xs ys : List Node}

/-- The pointers once a node with these neighbours has been linked out. -/
theorem Represents.unlink_links (h : l.Represents (xs ++ a :: ys)) (b : Node) :
    (l.unlink a).left b =
        (if a = b then none else if ys.head? = some b then xs.getLast? else l.left b) ∧
      (l.unlink a).right b =
        (if a = b then none else if xs.getLast? = some b then ys.head? else l.right b) := by
  obtain ⟨left, right⟩ := h.inside xs a ys rfl
  constructor
  · simp [Links.unlink, setLeft, setRight, left, right]
  · simp [Links.unlink, setLeft, setRight, left, right]

omit [DecidableEq Node] in
theorem nodup_of_middle (h : (xs ++ a :: ys).Nodup) : a ∉ xs ++ ys ∧ (xs ++ ys).Nodup :=
  List.nodup_cons.1 (List.perm_middle.nodup_iff.1 h)

/-- A node behind the one that is linked out. -/
theorem Represents.unlink_behind {b : Node} {vs : List Node} (h : l.Represents (xs ++ a :: (ys ++ b :: vs))) :
    (l.unlink a).left b = (xs ++ ys).getLast? ∧ (l.unlink a).right b = vs.head? := by
  obtain ⟨fresh, once⟩ := nodup_of_middle h.nodup
  have other : a ≠ b := by
    rintro rfl
    exact fresh (by simp)
  have before : xs.getLast? ≠ some b := by
    intro last
    have mem := List.mem_of_getLast? last
    exact (List.nodup_append.1 once).2.2 b mem b (by simp) rfl
  have split : xs ++ a :: (ys ++ b :: vs) = (xs ++ a :: ys) ++ b :: vs := by simp
  obtain ⟨left, right⟩ := h.inside (xs ++ a :: ys) b vs split
  rw [h.unlink_links b |>.1, h.unlink_links b |>.2, if_neg other, if_neg other, if_neg before, left, right]
  refine ⟨?_, rfl⟩
  cases ys with
  | nil => simp
  | cons c ys =>
    have apart : c ≠ b := by
      rintro rfl
      exact absurd once (by simp [List.nodup_append])
    simp [apart]

/-- A node before the one that is linked out. -/
theorem Represents.unlink_before {b : Node} {us : List Node} (h : l.Represents (us ++ b :: xs ++ a :: ys)) :
    (l.unlink a).left b = us.getLast? ∧ (l.unlink a).right b = (xs ++ ys).head? := by
  obtain ⟨fresh, once⟩ := nodup_of_middle h.nodup
  have other : a ≠ b := by
    rintro rfl
    exact fresh (by simp)
  have behind : ys.head? ≠ some b := by
    intro first
    have mem := List.mem_of_mem_head? first
    exact (List.nodup_append.1 once).2.2 b (by simp) b mem rfl
  have split : us ++ b :: xs ++ a :: ys = us ++ b :: (xs ++ a :: ys) := by simp
  obtain ⟨left, right⟩ := h.inside us b (xs ++ a :: ys) split
  rw [h.unlink_links b |>.1, h.unlink_links b |>.2, if_neg other, if_neg other, if_neg behind, left, right]
  refine ⟨rfl, ?_⟩
  cases xs with
  | nil => simp
  | cons c xs =>
    have apart : (us ++ b :: c :: xs).getLast? ≠ some b := by
      intro same
      rw [List.getLast?_append_of_ne_nil _ (List.cons_ne_nil b _), List.getLast?_cons_cons] at same
      have mem : b ∈ c :: xs := List.mem_of_getLast? same
      have once' := (List.nodup_append.1 (List.nodup_append.1 once).1).2.1
      exact (List.nodup_cons.1 once').1 mem
    rw [if_neg apart]
    rfl

/-- **Linking out** a node of the list. -/
theorem Represents.unlink_inside (h : l.Represents (xs ++ a :: ys)) :
    (l.unlink a).Represents (xs ++ ys) where
  head := by
    obtain ⟨left, right⟩ := h.inside xs a ys rfl
    have head := h.head
    cases xs with
    | nil => simpa [Links.unlink, right] using fun other => absurd head other
    | cons b xs =>
      have other : b ≠ a := by
        rintro rfl
        exact absurd h.nodup (by simp)
      simp only [List.cons_append, List.head?_cons] at head ⊢
      simp [Links.unlink, setLeft, setRight, head, other]
  nodup := (nodup_of_middle h.nodup).2
  inside us b vs split := by
    rcases List.append_eq_append_iff.1 split with ⟨w, rfl, rfl⟩ | ⟨w, rfl, tail⟩
    · exact h.unlink_behind
    · cases w with
      | nil =>
        obtain rfl : b :: vs = ys := tail
        rw [List.append_nil] at h
        have behind : (l.unlink a).left b = (us ++ []).getLast? ∧ (l.unlink a).right b = vs.head? :=
          Represents.unlink_behind h
        rwa [List.append_nil] at behind
      | cons c w =>
        obtain ⟨rfl, rfl⟩ := List.cons.inj tail
        exact h.unlink_before
  outside b out := by
    rw [(h.unlink_links b).1, (h.unlink_links b).2]
    by_cases same : a = b
    · exact ⟨if_pos same, if_pos same⟩
    · obtain ⟨before, behind⟩ := not_or.1 (mt List.mem_append.2 out)
      have first : ys.head? ≠ some b := fun first => behind (List.mem_of_mem_head? first)
      have last : xs.getLast? ≠ some b := fun last => before (List.mem_of_getLast? last)
      have out' : b ∉ xs ++ a :: ys := by
        rw [List.mem_append, List.mem_cons]
        rintro (mem | rfl | mem)
        · exact before mem
        · exact same rfl
        · exact behind mem
      rw [if_neg same, if_neg same, if_neg first, if_neg last]
      exact h.outside b out'

end Unlink

/-- **Linking out** any node. -/
theorem Represents.unlink (h : l.Represents q) (a : Node) : (l.unlink a).Represents (q.erase a) := by
  by_cases mem : a ∈ q
  · obtain ⟨xs, ys, -, rfl, rest⟩ := List.exists_erase_eq mem
    rw [rest]
    exact h.unlink_inside
  · rw [h.unlink_outside mem, List.erase_of_not_mem mem]
    exact h

end Links

end Lavoro.Lib
