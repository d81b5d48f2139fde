import Lavoro.Lib.Cursor
import Lavoro.Stream.Reader

/-!
# The reader as a cursor

`view` forgets the buffer of a reader and keeps what its client can tell: whether it
is at its end, and otherwise the bytes not yet read of the chunk in the buffer. For a
non-text reader whose `ReadBuffer()` stores what `fetch` hands out, `Next()` is
`Cursor.advance fetch` on the view (`next_view`) and `Current()` shows its head.
-/

namespace Lavoro.Reader
open Lib

/-- The bytes of the buffer from the current one on. -/
def unread (r : LReader) : List UInt8 :=
  (List.range' r.current (r.size - r.current)).map r.buffer.get

def view (r : LReader) : Cursor UInt8 :=
  if atEnd r then .ended
  else
    match unread r with
    | [] => .fresh
    | a :: more => .here a more

/-- A non-text reader whose indices lie in its buffer. -/
structure Plain (r : LReader) : Prop where
  notText : atEnd r = false → r.isText = false
  inside : atEnd r = false → r.current ≤ r.size
  room : atEnd r = false → r.size < readerBufferSize

/-- `readBuffer` stores the chunk that `fetch` hands out; an empty chunk is a refusal. -/
structure Refills {σ : Type} (readBuffer : ReadBuffer σ) (fetch : σ → List UInt8 × σ) : Prop where
  short : ∀ s, (fetch s).1.length < readerBufferSize
  stored : ∀ r s, atEnd r = false → (fetch s).1 ≠ [] →
    readBuffer (r, s) = (true, { r with
      size := (fetch s).1.length, current := 0, buffer := r.buffer.store (fetch s).1 }, (fetch s).2)
  refused : ∀ r s, atEnd r = false → (fetch s).1 = [] →
    (readBuffer (r, s)).1 = false ∧ (readBuffer (r, s)).2.2 = (fetch s).2

/-- The reader `r` with `chunk` in its buffer, at the chunk's first byte. -/
def filledWith (r : LReader) (chunk : List UInt8) : LReader :=
  { r with size := chunk.length, current := 0, buffer := r.buffer.store chunk }

theorem unread_filledWith {chunk : List UInt8} (r : LReader) (short : chunk.length < readerBufferSize) :
    unread (filledWith r chunk) = chunk := by
  apply List.ext_getElem
  · simp [unread, filledWith]
  · intro i hi hi'
    simp only [unread, filledWith, List.getElem_map, List.getElem_range', Nat.zero_add, Nat.one_mul]
    exact Buffer.get_store_of_lt hi' (Nat.le_of_lt short)

theorem unread_of_lt {r : LReader} (h : r.current < r.size) :
    unread r = r.buffer.get r.current :: unread { r with current := r.current + 1 } := by
  unfold unread
  obtain ⟨n, hn⟩ : ∃ n, r.size - r.current = n + 1 := ⟨r.size - r.current - 1, by omega⟩
  rw [hn, List.range'_succ, List.map_cons, show r.size - (r.current + 1) = n by omega]

theorem unread_of_eq {r : LReader} (h : r.current = r.size) : unread r = [] := by
  simp [unread, h]

theorem view_ended {r : LReader} (h : atEnd r = true) : view r = .ended := by
  simp [view, h]

theorem view_fresh {r : LReader} (more : atEnd r = false) (h : r.current = r.size) :
    view r = .fresh := by
  simp [view, more, unread_of_eq h]

theorem view_here {r : LReader} (more : atEnd r = false) (h : r.current < r.size) :
    view r = .here (r.buffer.get r.current) (unread { r with current := r.current + 1 }) := by
  simp [view, more, unread_of_lt h]

theorem view_filledWith {r : LReader} {chunk : List UInt8} (some : chunk ≠ [])
    (short : chunk.length < readerBufferSize) :
    view (filledWith r chunk) = Cursor.refill chunk := by
  have more : atEnd (filledWith r chunk) = false := atEnd_false_of_small short
  cases chunk with
  | nil => exact absurd rfl some
  | cons a rest => simp [view, more, unread_filledWith r short, Cursor.refill]

theorem Plain.of_atEnd {r : LReader} (h : atEnd r = true) : Plain r :=
  ⟨by simp [h], by simp [h], by simp [h]⟩

theorem plain_filledWith {r : LReader} {chunk : List UInt8} (plain : Plain r)
    (more : atEnd r = false) (short : chunk.length < readerBufferSize) :
    Plain (filledWith r chunk) :=
  ⟨fun _ => plain.notText more, fun _ => Nat.zero_le _, fun _ => short⟩

theorem plain_construct (buffer : Buffer readerBufferSize) : Plain (construct buffer) :=
  ⟨fun _ => rfl, fun _ => Nat.le_refl 0, fun _ => Nat.succ_pos 127⟩

theorem view_construct (buffer : Buffer readerBufferSize) : view (construct buffer) = .fresh :=
  view_fresh rfl rfl

/-- `Reset()` forgets the chunk, unless the reader is at its end. -/
theorem plain_reset {r : LReader} (plain : Plain r) (more : atEnd r = false) :
    Plain (reset r) ∧ view (reset r) = .fresh := by
  have forgotten : reset r = { r with current := 0, size := 0 } := by simp [reset, more]
  rw [forgotten]
  exact ⟨⟨fun _ => plain.notText more, fun _ => Nat.le_refl 0, fun _ => Nat.succ_pos 127⟩,
    view_fresh rfl rfl⟩

section Refinement

variable {σ : Type} {readBuffer : ReadBuffer σ} {fetch : σ → List UInt8 × σ}
variable {r : LReader} {s : σ}

/-- `Current()` on an unread byte of the buffer returns it and changes nothing. -/
theorem currentStep_filled (next : LReader × σ → Int × LReader × σ) (plain : Plain r)
    (more : atEnd r = false) (h : r.current ≠ r.size) :
    currentStep next (r, s) = (((r.buffer.get r.current).toNat : Int), r, s) := by
  simp [currentStep, plain.notText more, more, h]

/-- `Current()` on a used-up buffer refills through `Next()`. -/
theorem current_used (plain : Plain r) (more : atEnd r = false) (used : r.current = r.size) :
    (current readBuffer (r, s)).2 = (nextStep readBuffer currentFilled (r, s)).2 := by
  simp [current, currentStep, plain.notText more, more, used]

/-- `Next()` on a used-up buffer marks the end or goes on with the chunk just stored. -/
theorem nextStep_refill (h : Refills readBuffer fetch) (more : atEnd r = false)
    (used : r.current = r.size) (k : LReader × σ → Int × LReader × σ) :
    (∃ q, nextStep readBuffer k (r, s) = (readerEof, q) ∧ atEnd q.1 = true ∧ q.2 = (fetch s).2 ∧
        (fetch s).1 = []) ∨
      (nextStep readBuffer k (r, s) = k (filledWith r (fetch s).1, (fetch s).2) ∧
        (fetch s).1 ≠ []) := by
  by_cases empty : (fetch s).1 = []
  · obtain ⟨refused, source⟩ := h.refused r s more empty
    match hr : readBuffer (r, s) with
    | (true, _, _) => simp [hr] at refused
    | (false, r', s') =>
      rw [hr] at source
      exact .inl ⟨(markEnd r', s'), by simp [nextStep, more, used, hr], atEnd_markEnd r', source, empty⟩
  · have some : (fetch s).1.length ≠ 0 := fun zero => empty (List.length_eq_zero_iff.1 zero)
    refine .inr ⟨?_, empty⟩
    simp [nextStep, more, used, h.stored r s more empty, some, filledWith]

/-- The state in which a refill leaves the reader, seen through the view. -/
theorem refill_spec (h : Refills readBuffer fetch) (plain : Plain r) (more : atEnd r = false)
    (used : r.current = r.size) (next : LReader × σ → Int × LReader × σ) {p : LReader × σ}
    (run : (nextStep readBuffer (currentStep next) (r, s)).2 = p) :
    (view p.1, p.2) = (Cursor.refill (fetch s).1, (fetch s).2) ∧ Plain p.1 := by
  have short := h.short s
  rcases nextStep_refill (s := s) h more used (currentStep next) with
    ⟨q, refused, ended, source, empty⟩ | ⟨stored, some⟩
  · rw [refused] at run
    subst run
    exact ⟨by rw [view_ended ended, source, empty]; rfl, Plain.of_atEnd ended⟩
  · have filled := plain_filledWith plain more short
    have unused : (filledWith r (fetch s).1).current ≠ (filledWith r (fetch s).1).size :=
      fun zero => some (List.length_eq_zero_iff.1 zero.symm)
    rw [stored, currentStep_filled next filled (atEnd_false_of_small short) unused] at run
    subst run
    exact ⟨by rw [view_filledWith some short], filled⟩

/-- **`Next()` is one step of the cursor**, and keeps the indices in the buffer. -/
theorem next_view_plain (h : Refills readBuffer fetch) (plain : Plain r) :
    (view (next readBuffer (r, s)).2.1, (next readBuffer (r, s)).2.2) =
        Cursor.advance fetch (view r, s) ∧ Plain (next readBuffer (r, s)).2.1 := by
  cases more : atEnd r with
  | true =>
    rw [next_of_atEnd (p := (r, s)) more]
    exact ⟨by rw [view_ended more]; rfl, plain⟩
  | false =>
    have inside := plain.inside more
    have room := plain.room more
    by_cases used : r.current = r.size
    · -- nothing of the chunk is left: `Next()` itself refills
      rw [view_fresh more used]
      exact refill_spec h plain more used _ rfl
    · have step : next readBuffer (r, s) = current readBuffer ({ r with current := r.current + 1 }, s) := by
        simp [next, nextStep, more, used]
      have plain' : Plain { r with current := r.current + 1 } :=
        ⟨plain.notText, fun _ => by show r.current + 1 ≤ r.size; omega, plain.room⟩
      rw [step, view_here more (by omega)]
      by_cases last : r.current + 1 = r.size
      · -- the byte stepped over was the last of its chunk: `Current()` refills through `Next()`
        rw [unread_of_eq last]
        exact refill_spec h plain' more last _ (current_used plain' more last).symm
      · have more' : atEnd { r with current := r.current + 1 } = false := more
        have stay := currentStep_filled (s := s) (nextStep readBuffer currentFilled) plain' more' last
        rw [current, stay, view_here more' (by show r.current + 1 < r.size; omega)]
        have lt : ({ r with current := r.current + 1 } : LReader).current < r.size := by
          show r.current + 1 < r.size; omega
        rw [unread_of_lt (r := { r with current := r.current + 1 }) lt]
        exact ⟨rfl, plain'⟩

theorem next_view (h : Refills readBuffer fetch) (plain : Plain r) :
    (view (next readBuffer (r, s)).2.1, (next readBuffer (r, s)).2.2) =
      Cursor.advance fetch (view r, s) :=
  (next_view_plain h plain).1

theorem next_plain (h : Refills readBuffer fetch) (plain : Plain r) :
    Plain (next readBuffer (r, s)).2.1 :=
  (next_view_plain h plain).2

/-- **`Current()` shows the head of a started cursor** and changes nothing. -/
theorem current_view (plain : Plain r) (started : view r ≠ .fresh) :
    current readBuffer (r, s) =
      (match (view r).head? with
        | some b => (b.toNat : Int)
        | none => readerEof, r, s) := by
  cases more : atEnd r with
  | true =>
    rw [current_of_atEnd (p := (r, s)) more, view_ended more]
    rfl
  | false =>
    have inside := plain.inside more
    have unused : r.current ≠ r.size := fun used => started (view_fresh more used)
    rw [current, currentStep_filled _ plain more unused, view_here more (by omega)]
    rfl

theorem atEnd_iff_view {r : LReader} : atEnd r = true ↔ view r = .ended := by
  constructor
  · exact view_ended
  · intro ended
    cases more : atEnd r with
    | true => rfl
    | false =>
      simp only [view, more, Bool.false_eq_true, if_false] at ended
      split at ended <;> cases ended

end Refinement

end Lavoro.Reader
