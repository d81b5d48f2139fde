import Mathlib.Data.List.Nodup
import Mathlib.Logic.Function.Basic

/-!
# Tries

A node holds a value, if any, and has a child for some of the letters; a key leads from the root down
to a node. `insert` makes the nodes that are missing on the way. To `get` it is the update of a map
(`get_insert`), whatever prefixes the keys have in common.
-/

namespace Lavoro.Lib

inductive Trie (κ α : Type) : Type
  | node (value : Option α) (child : κ → Option (Trie κ α))

namespace Trie

variable {κ α β : Type} [DecidableEq κ]

/-- A node that has just been made. -/
def empty : Trie κ α := node none fun _ => none

def value : Trie κ α → Option α
  | node value _ => value

def child : Trie κ α → κ → Option (Trie κ α)
  | node _ child => child

def insert (a : α) : List κ → Trie κ α → Trie κ α
  | [], t => node (some a) t.child
  | k :: key, t => node t.value (Function.update t.child k (some (insert a key ((t.child k).getD empty))))

def get : List κ → Trie κ α → Option α
  | [], t => t.value
  | k :: key, t => (t.child k).bind (get key)

omit [DecidableEq κ] in
theorem get_empty (key : List κ) : get key (empty : Trie κ α) = none := by
  cases key with
  | nil => rfl
  | cons k key => rfl

omit [DecidableEq κ] in
/-- A node that is missing holds nothing. -/
theorem get_getD (key : List κ) (t : Option (Trie κ α)) : get key (t.getD empty) = t.bind (get key) := by
  cases t with
  | none => exact get_empty key
  | some t => rfl

/-- **An insertion** changes what is found under its own key, and under no other. -/
theorem get_insert (a : α) (key key' : List κ) (t : Trie κ α) :
    get key' (insert a key t) = if key' = key then some a else get key' t := by
  induction key generalizing key' t with
  | nil =>
    cases key' with
    | nil => rfl
    | cons k' key' => rfl
  | cons k key ih =>
    cases key' with
    | nil => rfl
    | cons k' key' =>
      show (Function.update t.child k _ k').bind (get key') = _
      by_cases same : k' = k
      · subst same
        rw [Function.update_self]
        apply (ih key' _).trans
        rw [get_getD]
        simp only [List.cons.injEq, true_and]
        rfl
      · rw [Function.update_of_ne same, if_neg fun h => same (List.cons.inj h).1]
        rfl

/-- The trie after one insertion for every element. -/
def inserted (key : β → List κ) (a : β → α) (l : List β) (t : Trie κ α) : Trie κ α :=
  l.foldl (fun t b => insert (a b) (key b) t) t

/-- Under a key that no element has there is what was there before. -/
theorem get_inserted_of_not_mem {key : β → List κ} {a : β → α} {l : List β} {k : List κ}
    (other : ∀ b ∈ l, key b ≠ k) (t : Trie κ α) : get k (inserted key a l t) = get k t := by
  induction l generalizing t with
  | nil => rfl
  | cons b l ih =>
    refine (ih (fun c mem => other c (List.mem_cons_of_mem b mem)) _).trans ?_
    rw [get_insert, if_neg (other b List.mem_cons_self).symm]

/-- **Elements with different keys** are all found. -/
theorem get_inserted {key : β → List κ} {a : β → α} {l : List β} (distinct : (l.map key).Nodup) {b : β}
    (mem : b ∈ l) (t : Trie κ α) : get (key b) (inserted key a l t) = some (a b) := by
  induction l generalizing t with
  | nil => cases mem
  | cons c l ih =>
    rw [List.map_cons, List.nodup_cons] at distinct
    rcases List.mem_cons.1 mem with rfl | behind
    · have other : ∀ c ∈ l, key c ≠ key b := fun c mem same =>
        distinct.1 (List.mem_map.2 ⟨c, mem, same⟩)
      apply (get_inserted_of_not_mem other _).trans
      rw [get_insert, if_pos rfl]
    · exact ih distinct.2 behind _

end Trie

end Lavoro.Lib
