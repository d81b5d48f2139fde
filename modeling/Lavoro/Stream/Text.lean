import Lavoro.Stream.Reader

/-!
# Text mode

In text mode `Current()` takes a NUL at the current index for the end of the stream, and
looks there before it compares the index with `size`: behind the last byte of a chunk it
tests a byte of the buffer that no chunk has brought. `textFrom` says what a reader shows of
a chunk under this test, `delivered` what it shows of a source that hands out chunks.
-/

namespace Lavoro.Reader

/-- A chunk that `ReadBuffer()` reports: the bytes it has stored, and the size it sets. -/
structure Reported where
  stored : List UInt8
  size : Nat
  deriving Repr, DecidableEq

/-- The reader that `ReadBuffer()` leaves. -/
def refilled (r : LReader) (c : Reported) : LReader :=
  { r with size := c.size, current := 0, buffer := r.buffer.store c.stored }

/-- What text mode shows of the `k` bytes from `i` on, and of what comes `behind` them. -/
def textFrom (b : Buffer readerBufferSize) (i : Nat) (behind : List UInt8) : Nat → List UInt8
  | 0 => if b.get i = 0 then [] else behind
  | k + 1 => if b.get i = 0 then [] else b.get i :: textFrom b (i + 1) behind k

/-- What text mode shows of the chunks still to come. -/
def delivered (b : Buffer readerBufferSize) : List Reported → List UInt8
  | [] => []
  | c :: more =>
    textFrom (b.store c.stored) 0 (delivered (b.store c.stored) more) c.size

variable {σ : Type} {readBuffer : ReadBuffer σ} {r : LReader} {s : σ}

/-- The source in the state `s` hands out these chunks and then refuses. -/
def Serves (readBuffer : ReadBuffer σ) (s : σ) : List Reported → Prop
  | [] => ∀ r, atEnd r = false → (readBuffer (r, s)).1 = false
  | c :: more =>
    (0 < c.size ∧ c.size < readerBufferSize) ∧
      ∃ s', (∀ r, atEnd r = false → readBuffer (r, s) = (true, refilled r c, s')) ∧
        Serves readBuffer s' more

/-- A text reader in the midst of its stream. -/
structure Textual (r : LReader) : Prop where
  text : r.isText = true
  room : r.size < readerBufferSize

/-- A text reader that shows a byte. -/
structure Shows (r : LReader) : Prop extends Textual r where
  unread : r.current < r.size
  byte : r.buffer.get r.current ≠ 0

/-- A text reader with nothing left in its buffer. -/
structure Used (r : LReader) : Prop extends Textual r where
  used : r.current = r.size

theorem Textual.more (h : Textual r) : atEnd r = false := atEnd_false_of_small h.room

/-- `Current()` on a byte that is no NUL. -/
theorem currentStep_shows (next : LReader × σ → Int × LReader × σ) (h : Shows r) :
    currentStep next (r, s) = (((r.buffer.get r.current).toNat : Int), r, s) := by
  have unused : r.current ≠ r.size := Nat.ne_of_lt h.unread
  simp [currentStep, h.more, h.byte, unused]

/-- `Current()` on a NUL. -/
theorem currentStep_nul (next : LReader × σ → Int × LReader × σ) (h : Textual r)
    (nul : r.buffer.get r.current = 0) : (currentStep next (r, s)).2 = (markEnd r, s) := by
  simp [currentStep, h.more, h.text, nul]

theorem refilled_textual (h : Textual r) {c : Reported} (room : c.size < readerBufferSize) :
    Textual (refilled r c) :=
  ⟨h.text, room⟩

/-- A refill of a used-up buffer: the reader is at its end, or shows the first byte. -/
theorem nextStep_used {c : Reported} {s' : σ} (h : Used r) (some : 0 < c.size)
    (room : c.size < readerBufferSize) (stored : readBuffer (r, s) = (true, refilled r c, s'))
    (next : LReader × σ → Int × LReader × σ) :
    (nextStep readBuffer (currentStep next) (r, s)).2 =
      if (refilled r c).buffer.get 0 = 0 then (markEnd (refilled r c), s') else (refilled r c, s') := by
  have filled := refilled_textual h.toTextual room
  have nonempty : c.size ≠ 0 := Nat.ne_of_gt some
  have step : nextStep readBuffer (currentStep next) (r, s) = currentStep next (refilled r c, s') := by
    simp [nextStep, h.more, h.used, stored, refilled, nonempty]
  rw [step]
  split
  · rename_i nul
    exact currentStep_nul next filled nul
  · rename_i byte
    exact congrArg Prod.snd (currentStep_shows next ⟨filled, some, byte⟩)

/-- A refill that is refused. -/
theorem nextStep_refused (h : Used r) (refused : (readBuffer (r, s)).1 = false)
    (k : LReader × σ → Int × LReader × σ) :
    atEnd (nextStep readBuffer k (r, s)).2.1 = true := by
  match hr : readBuffer (r, s) with
  | (true, _, _) => simp [hr] at refused
  | (false, r', s') => simp [nextStep, h.more, h.used, hr]

/-- The reader at the next index. -/
def stepped (r : LReader) : LReader := { r with current := r.current + 1 }

/-- `Next()` on a shown byte goes to the next index. -/
theorem next_shows (h : Shows r) :
    next readBuffer (r, s) = current readBuffer (stepped r, s) := by
  have unused : r.current ≠ r.size := Nat.ne_of_lt h.unread
  simp [next, nextStep, h.more, unused, stepped]

theorem stepped_textual (h : Textual r) : Textual (stepped r) := ⟨h.text, h.room⟩

/-- There is a NUL at the next index, of the chunk or behind it. -/
theorem next_nul (h : Shows r) (nul : r.buffer.get (r.current + 1) = 0) :
    (next readBuffer (r, s)).2 = (markEnd (stepped r), s) := by
  rw [next_shows h]
  exact currentStep_nul _ (stepped_textual h.toTextual) nul

/-- There is another byte of the chunk at the next index. -/
theorem next_inside (readBuffer : ReadBuffer σ) (s : σ) (h : Shows r) (inside : r.current + 1 < r.size)
    (byte : r.buffer.get (r.current + 1) ≠ 0) :
    (next readBuffer (r, s)).2 = (stepped r, s) ∧ Shows (stepped r) := by
  have shows : Shows (stepped r) := ⟨stepped_textual h.toTextual, inside, byte⟩
  rw [next_shows h]
  exact ⟨congrArg Prod.snd (currentStep_shows _ shows), shows⟩

/-- The chunk is used up, and the byte behind it is no NUL: `Current()` refills through
`Next()`. -/
theorem next_last (readBuffer : ReadBuffer σ) (s : σ) (h : Shows r) (last : r.current + 1 = r.size)
    (byte : r.buffer.get (r.current + 1) ≠ 0) :
    (next readBuffer (r, s)).2 = (next readBuffer (stepped r, s)).2 ∧ Used (stepped r) := by
  have used : Used (stepped r) := ⟨stepped_textual h.toTextual, last⟩
  have tested : (stepped r).buffer.get (stepped r).size ≠ 0 := by
    rw [← used.used]
    exact byte
  have refill : nextStep readBuffer currentFilled (stepped r, s) = next readBuffer (stepped r, s) :=
    nextStep_currentFilled used.used
  refine ⟨?_, used⟩
  rw [next_shows h, ← refill]
  simp [current, currentStep, used.more, used.used, tested]

end Lavoro.Reader
