/-!
# Writing into the middle of a sequence

`overwrite fill old pos data` is the sequence `old` after `data` has been written
from position `pos` on: the elements in the way are replaced, a write that reaches
past the end makes the sequence longer, and a gap before `pos` is closed with `fill`.
An empty write changes nothing.
-/

namespace Lavoro.Lib

variable {α : Type} {fill : α} {old data : List α} {pos q : Nat}

def overwrite (fill : α) (old : List α) (pos : Nat) (data : List α) : List α :=
  if data = [] then old
  else (old ++ List.replicate (pos - old.length) fill).take pos ++ data ++ old.drop (pos + data.length)

@[simp] theorem overwrite_nil (fill : α) (old : List α) (pos : Nat) :
    overwrite fill old pos [] = old := rfl

/-- A write that starts inside the sequence leaves no gap. -/
theorem overwrite_eq (le : pos ≤ old.length) :
    overwrite fill old pos data = old.take pos ++ data ++ old.drop (pos + data.length) := by
  unfold overwrite
  split
  · rename_i empty
    simp [empty]
  · rw [show pos - old.length = 0 by omega]
    simp

theorem overwrite_zero (fill : α) (old data : List α) :
    overwrite fill old 0 data = data ++ old.drop data.length := by
  rw [overwrite_eq (Nat.zero_le _)]
  simp

theorem length_overwrite (le : pos ≤ old.length) :
    (overwrite fill old pos data).length = max old.length (pos + data.length) := by
  rw [overwrite_eq le]
  simp only [List.length_append, List.length_take, List.length_drop]
  omega

/-- What lies behind the write stays. -/
theorem drop_overwrite (le : pos ≤ old.length) (behind : pos + data.length ≤ q) :
    (overwrite fill old pos data).drop q = old.drop q := by
  have front : (old.take pos ++ data).length = pos + data.length := by simp; omega
  rw [overwrite_eq le, List.drop_append, List.drop_eq_nil_of_le (by omega), front, List.drop_drop,
    List.nil_append, show pos + data.length + (q - (pos + data.length)) = q by omega]

/-- What lies in front of the write stays. -/
theorem getElem?_overwrite_before (le : pos ≤ old.length) (front : q < pos) :
    (overwrite fill old pos data)[q]? = old[q]? := by
  have kept : q < (old.take pos).length := by rw [List.length_take]; omega
  rw [overwrite_eq le, List.append_assoc, List.getElem?_append_left kept, List.getElem?_take_of_lt front]

/-- What has been written is there. -/
theorem getElem?_overwrite_first {a : α} (le : pos ≤ old.length) :
    (overwrite fill old pos [a])[pos]? = some a := by
  have front : (old.take pos).length = pos := by rw [List.length_take]; omega
  rw [overwrite_eq le, List.append_assoc, List.getElem?_append_right (Nat.le_of_eq front), front, Nat.sub_self]
  rfl

/-- Two writes one behind the other are one write. -/
theorem overwrite_append_inside {more : List α} (le : pos ≤ old.length) :
    overwrite fill (overwrite fill old pos data) (pos + data.length) more =
      overwrite fill old pos (data ++ more) := by
  have front : (old.take pos ++ data).length = pos + data.length := by simp; omega
  have room : pos + data.length ≤ (overwrite fill old pos data).length := by
    rw [length_overwrite le]; omega
  have kept : (overwrite fill old pos data).take (pos + data.length) = old.take pos ++ data := by
    rw [overwrite_eq le, ← front, List.take_left]
  rw [overwrite_eq room, kept, drop_overwrite le (by omega), overwrite_eq le, List.length_append,
    List.append_assoc (old.take pos), Nat.add_assoc]

/-- A write behind the end is one at the end of the sequence with its gap closed. -/
theorem overwrite_padded (some : data ≠ []) :
    overwrite fill old pos data =
      overwrite fill (old ++ List.replicate (pos - old.length) fill) pos data := by
  have padded : pos ≤ (old ++ List.replicate (pos - old.length) fill).length := by
    rw [List.length_append, List.length_replicate]; omega
  have long : 0 < data.length := List.length_pos_iff.2 some
  have behind : (old ++ List.replicate (pos - old.length) fill).drop (pos + data.length) =
      old.drop (pos + data.length) := by
    rw [List.drop_append, List.drop_replicate, show pos - old.length - (pos + data.length - old.length) = 0 by omega,
      List.replicate_zero, List.append_nil]
  rw [overwrite_eq padded, behind, overwrite, if_neg some]

theorem overwrite_append {more : List α} :
    overwrite fill (overwrite fill old pos data) (pos + data.length) more =
      overwrite fill old pos (data ++ more) := by
  by_cases empty : data = []
  · rw [empty, overwrite_nil, List.nil_append, List.length_nil, Nat.add_zero]
  · have padded : pos ≤ (old ++ List.replicate (pos - old.length) fill).length := by
      rw [List.length_append, List.length_replicate]; omega
    have joined : data ++ more ≠ [] := fun nil => empty (List.append_eq_nil_iff.1 nil).1
    rw [overwrite_padded empty, overwrite_padded joined]
    exact overwrite_append_inside padded

/-- What lies behind a write stays, also where the write closes a gap. -/
theorem drop_overwrite_behind (behind : pos + data.length ≤ q) :
    (overwrite fill old pos data).drop q = old.drop q := by
  by_cases empty : data = []
  · rw [empty, overwrite_nil]
  · have padded : pos ≤ (old ++ List.replicate (pos - old.length) fill).length := by
      rw [List.length_append, List.length_replicate]; omega
    rw [overwrite_padded empty, drop_overwrite padded behind, List.drop_append, List.drop_replicate,
      show pos - old.length - (q - old.length) = 0 by omega, List.replicate_zero, List.append_nil]

end Lavoro.Lib
