import Lavoro.Lib.Overwrite
import Mathlib.Data.List.TakeWhile

/-!
# Strings in arrays of a fixed size

A string ends at the first `nul`. `Field nul size` is an array of `size` units that holds one, with
the two functions that write to it: `copy` replaces the string and `cat` appends to it. A write past
the end of the array sets `overflow`; nothing is claimed of what follows it. `copy_sound` and
`cat_sound` are the rules for writes inside the array, `copy_overflow` and `cat_overflow` say
which those are.
-/

namespace Lavoro.Lib.CString

variable {α : Type} [DecidableEq α] {nul : α}

/-- The string at the start of a memory. -/
def text (nul : α) (mem : List α) : List α := mem.takeWhile (· ≠ nul)

theorem nul_not_mem_text (mem : List α) : nul ∉ text nul mem := by
  intro inside
  have set := List.mem_takeWhile_imp inside
  simp at set

/-- Units without a `nul` are a string. -/
theorem text_of_clean {s : List α} (clean : nul ∉ s) : text nul s = s :=
  List.takeWhile_eq_self_iff.2 fun _ mem => decide_eq_true fun same => clean (same ▸ mem)

theorem text_terminated {s : List α} (clean : nul ∉ s) (behind : List α) :
    text nul (s ++ nul :: behind) = s := by
  have set : ∀ u ∈ s, decide (u ≠ nul) = true := fun _ mem => decide_eq_true fun same => clean (same ▸ mem)
  rw [text, List.takeWhile_append_of_pos set, List.takeWhile_cons_of_neg (by simp), List.append_nil]

/-- A memory that holds a `nul` is its string, the `nul` and the rest. -/
theorem eq_text_append {mem : List α} (ends : nul ∈ mem) :
    ∃ behind, mem = text nul mem ++ nul :: behind := by
  obtain ⟨front, behind, rfl, clean⟩ := List.eq_append_cons_of_mem ends
  exact ⟨behind, by rw [text_terminated clean]⟩

/-- An array of `size` units. -/
structure Field (nul : α) (size : Nat) where
  units : List α
  length_units : units.length = size
  overflow : Bool
  deriving Repr, DecidableEq

namespace Field

variable {size : Nat} {b : Field nul size} {src : List α} {i : Nat}

/-- The string that the array holds. -/
def str (b : Field nul size) : List α := text nul b.units

/-- The string ends inside the array. -/
def Terminated (b : Field nul size) : Prop := nul ∈ b.units

/-- A write of `data` from unit `i` on. -/
def store (b : Field nul size) (i : Nat) (data : List α) : Field nul size :=
  if h : i + data.length ≤ size then
    { b with
      units := overwrite nul b.units i data
      length_units := by
        have length := b.length_units
        rw [length_overwrite (by omega)]
        omega }
  else { b with overflow := true }

/-- `StrCpy(b, src)`. -/
def copy (b : Field nul size) (src : List α) : Field nul size := b.store 0 (text nul src ++ [nul])

/-- `StrCat(b, src)`. -/
def cat (b : Field nul size) (src : List α) : Field nul size := b.store b.str.length (text nul src ++ [nul])

omit [DecidableEq α] in
theorem store_overflow (b : Field nul size) (i : Nat) (data : List α) :
    (b.store i data).overflow = false ↔ b.overflow = false ∧ i + data.length ≤ size := by
  unfold store
  split <;> simp_all

omit [DecidableEq α] in
theorem store_units {data : List α} (inside : i + data.length ≤ size) :
    (b.store i data).units = b.units.take i ++ data ++ b.units.drop (i + data.length) := by
  have length := b.length_units
  rw [store, dif_pos inside]
  exact overwrite_eq (by omega)

/-- `copy` writes the units of the string and its `nul`. -/
theorem copy_overflow (b : Field nul size) (src : List α) :
    (b.copy src).overflow = false ↔ b.overflow = false ∧ (text nul src).length < size := by
  rw [copy, store_overflow, List.length_append, List.length_singleton]
  exact and_congr_right fun _ => by omega

theorem cat_overflow (b : Field nul size) (src : List α) :
    (b.cat src).overflow = false ↔ b.overflow = false ∧ b.str.length + (text nul src).length < size := by
  rw [cat, store_overflow, List.length_append, List.length_singleton]
  exact and_congr_right fun _ => by omega

/-- **`copy` inside the array.** -/
theorem copy_sound (fits : (text nul src).length < size) :
    (b.copy src).str = text nul src ∧ (b.copy src).Terminated := by
  have inside : 0 + (text nul src ++ [nul]).length ≤ size := by simp; omega
  have units : (b.copy src).units =
      text nul src ++ nul :: b.units.drop (0 + (text nul src ++ [nul]).length) := by
    rw [copy, store_units inside, List.take_zero, List.nil_append, List.append_assoc, List.singleton_append]
  refine ⟨?_, ?_⟩
  · rw [str, units]
    exact text_terminated (nul_not_mem_text src) _
  · rw [Terminated, units]
    exact List.mem_append_right _ List.mem_cons_self

/-- **`cat` inside the array.** -/
theorem cat_sound (fits : b.str.length + (text nul src).length < size) :
    (b.cat src).str = b.str ++ text nul src ∧ (b.cat src).Terminated := by
  have inside : b.str.length + (text nul src ++ [nul]).length ≤ size := by simp; omega
  have front : b.units.take b.str.length = b.str := by
    obtain ⟨behind, shape⟩ := List.takeWhile_prefix (· ≠ nul) (l := b.units)
    rw [← shape]
    exact List.take_left
  have units : (b.cat src).units =
      (b.str ++ text nul src) ++ nul :: b.units.drop (b.str.length + (text nul src ++ [nul]).length) := by
    rw [cat, store_units inside, front, ← List.append_assoc, List.append_assoc (b.str ++ text nul src),
      List.singleton_append]
  have clean : nul ∉ b.str ++ text nul src := by
    rw [List.mem_append]
    exact not_or.2 ⟨nul_not_mem_text b.units, nul_not_mem_text src⟩
  refine ⟨?_, ?_⟩
  · rw [str, units]
    exact text_terminated clean _
  · rw [Terminated, units]
    exact List.mem_append_right _ List.mem_cons_self

theorem Terminated.length_lt (h : b.Terminated) : b.str.length < size := by
  obtain ⟨behind, shape⟩ := eq_text_append h
  have length := congrArg List.length shape
  rw [b.length_units, List.length_append, List.length_cons] at length
  unfold str
  omega

end Field

end Lavoro.Lib.CString
