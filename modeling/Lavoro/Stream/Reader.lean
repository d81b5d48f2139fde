import Lavoro.Efi.Base

/-!
# The buffered reader (`lreader.hpp`)

`LReader` keeps a 128-byte buffer, the number of bytes in it and the index of the
current one; `size == ~0U` marks the end of the stream. `Current()` and `Next()` call
each other: `currentStep` and `nextStep` are their bodies with the call to the other
as a parameter. A refill leaves `current == 0 != size`, where `Current()` calls
nothing, so the two bodies unrolled over that point are the mutually recursive pair
(`current_eq`, `next_eq`).
-/

namespace Lavoro

/-- `const int ReaderEof`. -/
def readerEof : Int := -1

/-- `const unsigned long ReaderBufferSize`. -/
def readerBufferSize : Nat := 128

/-- `~0U`, the value of `size` at the end of the stream. -/
def sizeAtEnd : Nat := 4294967295

structure LReader where
  isText : Bool
  size : Nat
  current : Nat
  buffer : Buffer readerBufferSize

/-- The virtual `ReadBuffer()` of a reader over a source `σ`. -/
abbrev ReadBuffer (σ : Type) := LReader × σ → Bool × LReader × σ

namespace Reader

variable {σ : Type}

/-- A constructed reader; the buffer is not initialised. -/
def construct (buffer : Buffer readerBufferSize) : LReader :=
  { isText := false, size := 0, current := 0, buffer }

def setText (r : LReader) : LReader := { r with isText := true }

def atEnd (r : LReader) : Bool := r.size == sizeAtEnd

/-- The reader with the end mark set. -/
def markEnd (r : LReader) : LReader := { r with size := sizeAtEnd }

def reset (r : LReader) : LReader :=
  if !atEnd r then { r with current := 0, size := 0 } else r

/-- `Current()`, with the `Next()` it calls. -/
def currentStep (next : LReader × σ → Int × LReader × σ) (p : LReader × σ) : Int × LReader × σ :=
  if atEnd p.1 then (readerEof, p)
  else if p.1.isText && p.1.buffer.get p.1.current == 0 then (readerEof, markEnd p.1, p.2)
  else
    let q := if p.1.current == p.1.size then (next p).2 else p
    (((q.1.buffer.get q.1.current).toNat : Int), q)

/-- `Next()`, with the `Current()` it calls. -/
def nextStep (readBuffer : ReadBuffer σ) (current : LReader × σ → Int × LReader × σ)
    (p : LReader × σ) : Int × LReader × σ :=
  if atEnd p.1 then (readerEof, p)
  else if p.1.current != p.1.size then current ({ p.1 with current := p.1.current + 1 }, p.2)
  else
    match readBuffer p with
    | (false, r, s) => (readerEof, markEnd r, s)
    | (true, r, s) =>
      if r.size == 0 then (readerEof, markEnd { r with current := 0 }, s)
      else current ({ r with current := 0 }, s)

/-- `Current()` on a buffer with an unread byte: `Next()` is not called. -/
def currentFilled : LReader × σ → Int × LReader × σ :=
  currentStep fun p => (readerEof, p)

/-- `Current()`. -/
def current (readBuffer : ReadBuffer σ) : LReader × σ → Int × LReader × σ :=
  currentStep (nextStep readBuffer currentFilled)

/-- `Next()`. -/
def next (readBuffer : ReadBuffer σ) : LReader × σ → Int × LReader × σ :=
  nextStep readBuffer (current readBuffer)

/-- `Read(Buffer, BufferSize)`: the bytes stored; their number is the result. -/
def read (readBuffer : ReadBuffer σ) : Nat → LReader × σ → List UInt8 × LReader × σ
  | 0, p => ([], p)
  | n + 1, p =>
    if atEnd p.1 then ([], p)
    else
      let c := current readBuffer p
      let rest := read readBuffer n (next readBuffer c.2).2
      (toByte c.1 :: rest.1, rest.2)

variable {readBuffer : ReadBuffer σ}

theorem currentStep_of_ne {next next' : LReader × σ → Int × LReader × σ} {p : LReader × σ}
    (h : p.1.current ≠ p.1.size) : currentStep next p = currentStep next' p := by
  simp [currentStep, h]

/-- Where `Current()` calls `Next()`, the `Current()` that `Next()` calls back calls nothing. -/
theorem nextStep_currentFilled {p : LReader × σ} (h : p.1.current = p.1.size) :
    nextStep readBuffer currentFilled p = next readBuffer p := by
  have filled : ∀ (r : LReader) (s : σ), (r.size == 0) = false →
      currentFilled (σ := σ) ({ r with current := 0 }, s) =
        current readBuffer ({ r with current := 0 }, s) := by
    intro r s nonempty
    refine currentStep_of_ne fun empty => ?_
    have zero : 0 = r.size := empty
    simp [← zero] at nonempty
  unfold next nextStep
  split
  · rfl
  · rw [if_neg (by simp [h]), if_neg (by simp [h])]
    match readBuffer p with
    | (false, _, _) => rfl
    | (true, r, s) =>
      cases hs : r.size == 0 with
      | true => simp [hs]
      | false => simpa [hs] using filled r s hs

/-- `Current()` is its source body over `Next()`. -/
theorem current_eq : current readBuffer = currentStep (next readBuffer) := by
  funext p
  by_cases h : p.1.current = p.1.size
  · unfold current currentStep
    rw [nextStep_currentFilled h]
  · exact currentStep_of_ne h

/-- `Next()` is its source body over `Current()`. -/
theorem next_eq : next readBuffer = nextStep readBuffer (current readBuffer) := rfl

theorem atEnd_false_of_small {r : LReader} (h : r.size < readerBufferSize) : atEnd r = false := by
  have small : r.size ≠ sizeAtEnd := by
    unfold readerBufferSize at h
    unfold sizeAtEnd
    omega
  simp [atEnd, small]

@[simp] theorem atEnd_markEnd (r : LReader) : atEnd (markEnd r) = true := by
  simp [atEnd, markEnd]

theorem current_of_atEnd {p : LReader × σ} (h : atEnd p.1 = true) :
    current readBuffer p = (readerEof, p) := by
  simp [current, currentStep, h]

theorem next_of_atEnd {p : LReader × σ} (h : atEnd p.1 = true) :
    next readBuffer p = (readerEof, p) := by
  simp [next, nextStep, h]

section Keeps

variable {Keeps : σ → Prop}

/-- `Current()` keeps what its `Next()` keeps. -/
theorem currentStep_keeps {next : LReader × σ → Int × LReader × σ}
    (keep : ∀ p, Keeps p.2 → Keeps (next p).2.2) {p : LReader × σ} (h : Keeps p.2) :
    Keeps (currentStep next p).2.2 := by
  unfold currentStep
  split
  · exact h
  · split
    · exact h
    · simp only
      split
      · exact keep p h
      · exact h

/-- `Next()` keeps what `ReadBuffer()` and its `Current()` keep. -/
theorem nextStep_keeps {current : LReader × σ → Int × LReader × σ}
    (refill : ∀ r s, Keeps s → Keeps (readBuffer (r, s)).2.2)
    (keep : ∀ p, Keeps p.2 → Keeps (current p).2.2) {p : LReader × σ} (h : Keeps p.2) :
    Keeps (nextStep readBuffer current p).2.2 := by
  unfold nextStep
  split
  · exact h
  · split
    · exact keep _ h
    · have stored := refill p.1 p.2 h
      match hr : readBuffer p with
      | (false, r, s) =>
        rw [hr] at stored
        exact stored
      | (true, r, s) =>
        rw [hr] at stored
        simp only
        split
        · exact stored
        · exact keep _ stored

/-- What every `ReadBuffer()` keeps of the source is kept by `Current()`. -/
theorem current_keeps (refill : ∀ r s, Keeps s → Keeps (readBuffer (r, s)).2.2) {p : LReader × σ}
    (h : Keeps p.2) : Keeps (current readBuffer p).2.2 := by
  have filled : ∀ p : LReader × σ, Keeps p.2 → Keeps (currentFilled p).2.2 :=
    fun _ h => currentStep_keeps (fun _ h => h) h
  exact currentStep_keeps (fun _ h => nextStep_keeps refill filled h) h

/-- The same of `Next()`. -/
theorem next_keeps (refill : ∀ r s, Keeps s → Keeps (readBuffer (r, s)).2.2) {p : LReader × σ}
    (h : Keeps p.2) : Keeps (next readBuffer p).2.2 :=
  nextStep_keeps refill (fun _ h => current_keeps refill h) h

/-- The same of `Read`. -/
theorem read_keeps (refill : ∀ r s, Keeps s → Keeps (readBuffer (r, s)).2.2) (n : Nat)
    {p : LReader × σ} (h : Keeps p.2) : Keeps (read readBuffer n p).2.2 := by
  induction n generalizing p with
  | zero => exact h
  | succ n ih =>
    unfold read
    split
    · exact h
    · exact ih (next_keeps refill (current_keeps refill h))

end Keeps

end Reader

end Lavoro
