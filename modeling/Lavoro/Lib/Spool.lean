/-!
# A buffer that is handed on in chunks

What is put into a `Spool` waits until there is as much of it as the buffer holds, or until it is flushed, and is then
handed on. `text` is all that has been put, handed on or not: it grows by what is put (`text_put`) and a flush changes
nothing about it (`text_flush`). A receiver with a limit takes of each chunk as much as it still has room for; from the chunks
it has in the end what it would have taken of the whole (`foldl_accept`).
-/

namespace Lavoro.Lib

variable {α : Type} {capacity limit : Nat}

/-- The chunks that have been handed on and the buffer, which is never full. -/
structure Spool (α : Type) (capacity : Nat) where
  chunks : List (List α)
  pending : List α
  small : ∀ chunk ∈ chunks, chunk.length ≤ capacity
  room : pending.length < capacity

namespace Spool

theorem small_handed (s : Spool α capacity) {last : List α} (le : last.length ≤ capacity) :
    ∀ chunk ∈ s.chunks ++ [last], chunk.length ≤ capacity := by
  intro chunk mem
  rcases List.mem_append.1 mem with before | now
  · exact s.small chunk before
  · rw [List.mem_singleton.1 now]
    exact le

theorem small_nil : ∀ chunk ∈ ([] : List (List α)), chunk.length ≤ capacity :=
  fun _ mem => absurd mem List.not_mem_nil

theorem room_nil (s : Spool α capacity) : ([] : List α).length < capacity := Nat.zero_lt_of_lt s.room

theorem room_put {pending : List α} {a : α} (more : pending.length + 1 < capacity) : (pending ++ [a]).length < capacity := by
  rwa [List.length_append]

theorem full_put {s : Spool α capacity} {a : α} : (s.pending ++ [a]).length ≤ capacity := by
  rw [List.length_append]
  exact s.room

/-- The buffer is handed on. -/
def flush (s : Spool α capacity) : Spool α capacity where
  chunks := s.chunks ++ [s.pending]
  pending := []
  small := s.small_handed (Nat.le_of_lt s.room)
  room := s.room_nil

/-- One more, behind which a full buffer is handed on. -/
def put (s : Spool α capacity) (a : α) : Spool α capacity :=
  if more : s.pending.length + 1 < capacity then
    { s with pending := s.pending ++ [a], room := room_put more }
  else { chunks := s.chunks ++ [s.pending ++ [a]], pending := [], small := s.small_handed full_put, room := s.room_nil }

/-- All that has been put. -/
def text (s : Spool α capacity) : List α := s.chunks.flatten ++ s.pending

@[simp] theorem text_flush (s : Spool α capacity) : s.flush.text = s.text := by
  simp [text, flush]

@[simp] theorem text_put (s : Spool α capacity) (a : α) : (s.put a).text = s.text ++ [a] := by
  unfold put text
  split <;> simp

end Spool

/-! ## A receiver with a limit -/

/-- What has been taken, and as much of the chunk as there is room for. -/
def accept (limit : Nat) (taken chunk : List α) : List α := taken ++ chunk.take (limit - taken.length)

theorem length_accept {taken : List α} (le : taken.length ≤ limit) (chunk : List α) : (accept limit taken chunk).length ≤ limit := by
  rw [accept, List.length_append, List.length_take]
  omega

/-- **The chunks make no difference.** -/
theorem foldl_accept {taken : List α} (le : taken.length ≤ limit) (chunks : List (List α)) :
    chunks.foldl (accept limit) taken = (taken ++ chunks.flatten).take limit := by
  induction chunks generalizing taken with
  | nil => simp [List.take_of_length_le le]
  | cons chunk chunks ih =>
    rw [List.foldl_cons, ih (length_accept le chunk), accept, List.flatten_cons]
    by_cases room : chunk.length ≤ limit - taken.length
    · rw [List.take_of_length_le room, List.append_assoc]
    · have full : (taken ++ chunk.take (limit - taken.length)).length = limit := by
        rw [List.length_append, List.length_take]
        omega
      have first : taken.take limit = taken := List.take_of_length_le le
      have within : (chunk ++ chunks.flatten).take (limit - taken.length) = chunk.take (limit - taken.length) :=
        List.take_append_of_le_length (by omega)
      calc (taken ++ chunk.take (limit - taken.length) ++ chunks.flatten).take limit
          = taken ++ chunk.take (limit - taken.length) := List.take_left' full
        _ = (taken ++ (chunk ++ chunks.flatten)).take limit := by rw [List.take_append, first, within]

end Lavoro.Lib
