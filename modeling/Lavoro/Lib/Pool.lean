import Mathlib.Data.List.Nodup
import Mathlib.Logic.Function.Basic

/-!
# A pool of memory

Blocks are asked for and given back. A block is named after the request that has made it, so no name is used
twice, and there is nothing to give back in a block that is not live. `Holds` is the ledger between two states
of a pool: the blocks of a list have been made in between and are live, and all others are as they were. It
composes (`Holds.refl`, `Holds.trans`); a request that is granted puts a block on the list and one that is
refused does not (`holds_grant`, `holds_refuse`), and a block of the list can be given back (`Holds.free`).
-/

namespace Lavoro.Lib

/-- The size of each block that is live. -/
structure Pool where
  requests : Nat
  live : Nat → Option Nat
  fresh : ∀ b, requests ≤ b → live b = none

namespace Pool

theorem fresh_grant (p : Pool) (size : Nat) (b : Nat) (le : p.requests + 1 ≤ b) :
    Function.update p.live p.requests (some size) b = none := by
  rw [Function.update_of_ne (by omega)]
  exact p.fresh b (by omega)

theorem fresh_refuse (p : Pool) (b : Nat) (le : p.requests + 1 ≤ b) : p.live b = none :=
  p.fresh b (by omega)

theorem fresh_drop (p : Pool) (b c : Nat) (le : p.requests ≤ c) : Function.update p.live b none c = none := by
  by_cases same : c = b
  · rw [same, Function.update_self]
  · rw [Function.update_of_ne same]
    exact p.fresh c le

/-- A request is granted. -/
def grant (p : Pool) (size : Nat) : Pool where
  requests := p.requests + 1
  live := Function.update p.live p.requests (some size)
  fresh := fresh_grant p size

/-- A request is refused. -/
def refuse (p : Pool) : Pool where
  requests := p.requests + 1
  live := p.live
  fresh := fresh_refuse p

/-- A block is gone. -/
def drop (p : Pool) (b : Nat) : Pool where
  requests := p.requests
  live := Function.update p.live b none
  fresh := fresh_drop p b

/-- A request for `size` bytes, and the block it makes, if it is granted. -/
def allocate (p : Pool) (granted : Bool) (size : Nat) : Option Nat × Pool :=
  if granted then (some p.requests, p.grant size) else (none, p.refuse)

/-- The block is given back. -/
def free (p : Pool) (b : Nat) : Option Pool :=
  if (p.live b).isSome then some (p.drop b) else none

theorem fresh_empty (b : Nat) (_ : 0 ≤ b) : (fun _ : Nat => (none : Option Nat)) b = none := rfl

/-- Before any request. -/
def empty : Pool where
  requests := 0
  live _ := none
  fresh := fresh_empty

variable {p q r : Pool} {b size : Nat} {held more : List Nat}

@[simp] theorem allocate_true : p.allocate true size = (some p.requests, p.grant size) := rfl

@[simp] theorem allocate_false : p.allocate false size = (none, p.refuse) := rfl

@[simp] theorem grant_requests : (p.grant size).requests = p.requests + 1 := rfl

@[simp] theorem refuse_requests : p.refuse.requests = p.requests + 1 := rfl

@[simp] theorem drop_requests : (p.drop b).requests = p.requests := rfl

@[simp] theorem grant_live_self : (p.grant size).live p.requests = some size := Function.update_self ..

theorem free_of_live (live : (p.live b).isSome) : p.free b = some (p.drop b) := if_pos live

theorem lt_of_live (live : (p.live b).isSome) : b < p.requests := by
  by_contra ge
  rw [p.fresh b (Nat.le_of_not_lt ge)] at live
  cases live

/-- From `p` to `q` the blocks `held` have been made, and no other has changed. -/
structure Holds (p q : Pool) (held : List Nat) : Prop where
  later : p.requests ≤ q.requests
  nodup : held.Nodup
  made : ∀ b ∈ held, p.requests ≤ b
  live : ∀ b ∈ held, (q.live b).isSome
  kept : ∀ b, b ∉ held → q.live b = p.live b

theorem Holds.refl (p : Pool) : Holds p p [] where
  later := Nat.le_refl _
  nodup := List.nodup_nil
  made _ mem := absurd mem List.not_mem_nil
  live _ mem := absurd mem List.not_mem_nil
  kept _ _ := rfl

/-- What has been made later is none of what has been made before. -/
theorem Holds.trans (first : Holds p q held) (second : Holds q r more) : Holds p r (held ++ more) := by
  have apart : ∀ b ∈ held, b ∉ more := by
    intro b mem later
    have old := lt_of_live (first.live b mem)
    have new := second.made b later
    omega
  refine ⟨Nat.le_trans first.later second.later, ?_, ?_, ?_, ?_⟩
  · exact List.nodup_append'.2 ⟨first.nodup, second.nodup, fun b mem later => apart b mem later⟩
  · intro b mem
    rcases List.mem_append.1 mem with early | late
    · exact first.made b early
    · exact Nat.le_trans first.later (second.made b late)
  · intro b mem
    rcases List.mem_append.1 mem with early | late
    · rw [second.kept b (apart b early)]
      exact first.live b early
    · exact second.live b late
  · intro b absent
    obtain ⟨early, late⟩ := not_or.1 (mt List.mem_append.2 absent)
    exact (second.kept b late).trans (first.kept b early)

theorem holds_grant (p : Pool) (size : Nat) : Holds p (p.grant size) [p.requests] := by
  refine ⟨Nat.le_succ _, List.nodup_singleton _, ?_, ?_, ?_⟩
  · intro b mem
    exact Nat.le_of_eq (List.mem_singleton.1 mem).symm
  · intro b mem
    rw [List.mem_singleton.1 mem, grant_live_self]
    rfl
  · intro b absent
    exact Function.update_of_ne (mt List.mem_singleton.2 absent) ..

theorem holds_refuse (p : Pool) : Holds p p.refuse [] :=
  { Holds.refl p with later := Nat.le_succ _, kept := fun _ _ => rfl }

/-- **A block of the list can be given back**, and is then off the list. -/
theorem Holds.free (h : Holds p q held) (mem : b ∈ held) : q.free b = some (q.drop b) ∧ Holds p (q.drop b) (held.erase b) := by
  refine ⟨free_of_live (h.live b mem), h.later, h.nodup.erase b, ?_, ?_, ?_⟩
  · intro c left
    exact h.made c (List.mem_of_mem_erase left)
  · intro c left
    obtain ⟨other, before⟩ := h.nodup.mem_erase_iff.1 left
    change (Function.update q.live b none c).isSome
    rw [Function.update_of_ne other]
    exact h.live c before
  · intro c absent
    change Function.update q.live b none c = p.live c
    by_cases same : c = b
    · rw [same, Function.update_self, p.fresh b (h.made b mem)]
    · rw [Function.update_of_ne same]
      exact h.kept c fun before => absent (h.nodup.mem_erase_iff.2 ⟨same, before⟩)

end Pool

end Lavoro.Lib
