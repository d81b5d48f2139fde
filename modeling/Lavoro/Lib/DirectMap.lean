import Mathlib.Data.List.Induction
import Mathlib.Data.List.Nodup
import Mathlib.Logic.Function.Basic

/-!
# Tables that hold one element a slot

An element is stored in the slot of its key, over what is there, and a key is looked up in its
slot without being compared. `lookup_stored_iff` says for which keys that finds what a search by
key would.
-/

namespace Lavoro.Lib.DirectMap

variable {α κ ι : Type} [DecidableEq κ] [DecidableEq ι] (key : α → κ) (slot : κ → ι)

def store (t : ι → Option α) (a : α) : ι → Option α := Function.update t (slot (key a)) (some a)

/-- The table after these elements have been stored in order. -/
def stored (l : List α) : ι → Option α := l.foldl (store key slot) fun _ => none

def lookup (t : ι → Option α) (k : κ) : Option α := t (slot k)

/-- What shares the slot of `k` has the key `k`, or an element behind it has. -/
def Undisturbed : List α → κ → Prop
  | [], _ => True
  | a :: behind, k =>
    (slot (key a) = slot k → key a = k ∨ ∃ b ∈ behind, key b = k) ∧ Undisturbed behind k

instance : ∀ (l : List α) (k : κ), Decidable (Undisturbed key slot l k)
  | [], _ => inferInstanceAs (Decidable True)
  | _ :: behind, k =>
    let _ : Decidable (Undisturbed key slot behind k) := instDecidableUndisturbed behind k
    inferInstanceAs (Decidable ((_ → _ ∨ ∃ b ∈ behind, _) ∧ _))

variable {key slot} {l : List α} {a : α} {k : κ}

omit [DecidableEq κ] in
theorem stored_snoc : stored key slot (l ++ [a]) = store key slot (stored key slot l) a :=
  List.foldl_append

omit [DecidableEq κ] in
theorem lookup_store (t : ι → Option α) :
    lookup slot (store key slot t a) k = if slot (key a) = slot k then some a else lookup slot t k := by
  unfold lookup store
  by_cases same : slot (key a) = slot k
  · rw [if_pos same, ← same, Function.update_self]
  · rw [if_neg same, Function.update_of_ne (Ne.symm same)]

omit [DecidableEq κ] [DecidableEq ι] in
/-- One element more. -/
theorem undisturbed_snoc :
    Undisturbed key slot (l ++ [a]) k ↔
      (slot (key a) = slot k → key a = k) ∧ (key a = k ∨ Undisturbed key slot l k) := by
  induction l with
  | nil => simp [Undisturbed]
  | cons b l ih =>
    have behind : (∃ c ∈ l ++ [a], key c = k) ↔ (∃ c ∈ l, key c = k) ∨ key a = k := by
      simp [or_and_right, exists_or]
    rw [List.cons_append, Undisturbed, Undisturbed, ih, behind]
    by_cases own : key a = k
    · simp [own]
    · simp only [own, or_false, false_or]
      exact and_left_comm

/-- **Where the table finds what a search by key finds**, if no two elements have the same key. -/
theorem lookup_stored_iff (distinct : (l.map key).Nodup) (k : κ) :
    lookup slot (stored key slot l) k = l.find? (fun a => key a = k) ↔ Undisturbed key slot l k := by
  induction l using List.reverseRecOn with
  | nil => exact iff_of_true rfl trivial
  | append_singleton l a ih =>
    rw [List.map_append, List.map_singleton, List.nodup_append] at distinct
    obtain ⟨distinct, -, apart⟩ := distinct
    rw [stored_snoc, lookup_store, List.find?_append, undisturbed_snoc]
    by_cases own : key a = k
    · have others : l.find? (fun a => key a = k) = none := by
        rw [List.find?_eq_none]
        intro b mem same
        have equal : key b = key a := (of_decide_eq_true same).trans own.symm
        exact apart (key b) (List.mem_map_of_mem mem) (key a) (List.mem_singleton_self _) equal
      simp [own, others]
    · have alone : [a].find? (fun a => key a = k) = none := by simp [own]
      rw [alone, Option.or_none]
      by_cases same : slot (key a) = slot k
      · rw [if_pos same]
        refine iff_of_false (fun found => own ?_) fun both => own (both.1 same)
        have hit := List.find?_some found.symm
        simpa using hit
      · rw [if_neg same, ih distinct]
        simp [same, own]

end Lavoro.Lib.DirectMap
