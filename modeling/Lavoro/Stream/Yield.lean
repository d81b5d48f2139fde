import Lavoro.Stream.Requests
import Lavoro.Stream.Text

/-!
# What `Next()` and `Current()` show one after another

A loop that calls `Next()` and then `Current()` sees the bytes of a stream one by one: `Yields` says
which. A non-text reader over a source that hands out chunks yields what `ReadBuffer()` has reported
of them (`serves_yields`): of each chunk as many bytes as its size says, whether the source has stored
them or not.
-/

namespace Lavoro.Reader

variable {σ : Type} {readBuffer : ReadBuffer σ} {r : LReader} {s : σ}

/-- The bytes that `Next()` comes to, up to the end of the stream. -/
def Yields (readBuffer : ReadBuffer σ) (p : LReader × σ) : List UInt8 → Prop
  | [] => atEnd (next readBuffer p).2.1 = true
  | byte :: more =>
    atEnd p.1 = false ∧
      current readBuffer (next readBuffer p).2 = ((byte.toNat : Int), (next readBuffer p).2) ∧
        Yields readBuffer (next readBuffer p).2 more

/-- What `ReadBuffer()` reports of the chunks still to come. -/
def handed (b : Buffer readerBufferSize) : List Reported → List UInt8
  | [] => []
  | c :: more => (List.range c.size).map (b.store c.stored).get ++ handed (b.store c.stored) more

/-- A non-text reader in the midst of its stream. -/
structure Binary (r : LReader) : Prop where
  notText : r.isText = false
  room : r.size < readerBufferSize

theorem Binary.more (h : Binary r) : atEnd r = false := atEnd_false_of_small h.room

/-- `Current()` on an unread byte. -/
theorem currentStep_binary (next : LReader × σ → Int × LReader × σ) (h : Binary r) (unread : r.current < r.size) :
    currentStep next (r, s) = (((r.buffer.get r.current).toNat : Int), r, s) := by
  have unused : r.current ≠ r.size := Nat.ne_of_lt unread
  simp [currentStep, h.more, h.notText, unused]

/-- A refill of a used-up buffer shows the first byte of the chunk. -/
theorem next_refilled {c : Reported} {s' : σ} (h : Binary r) (used : r.current = r.size) (some : 0 < c.size)
    (room : c.size < readerBufferSize) (stored : readBuffer (r, s) = (true, refilled r c, s')) :
    (next readBuffer (r, s)).2 = (refilled r c, s') := by
  have filled : Binary (refilled r c) := ⟨h.notText, room⟩
  have nonempty : c.size ≠ 0 := Nat.ne_of_gt some
  have step : next readBuffer (r, s) = current readBuffer (refilled r c, s') := by
    simp [next, nextStep, h.more, used, stored, refilled, nonempty]
  rw [step]
  exact congrArg Prod.snd (currentStep_binary _ filled some)

theorem next_unused (readBuffer : ReadBuffer σ) (s : σ) (h : Binary r) (unused : r.current ≠ r.size) :
    next readBuffer (r, s) = current readBuffer (stepped r, s) := by
  simp [next, nextStep, h.more, unused, stepped]

/-- The byte behind one that is not the last of its chunk. -/
theorem next_within (readBuffer : ReadBuffer σ) (s : σ) (h : Binary r) (inside : r.current + 1 < r.size) :
    (next readBuffer (r, s)).2 = (stepped r, s) := by
  have filled : Binary (stepped r) := ⟨h.notText, h.room⟩
  have step := next_unused readBuffer s h (by omega)
  rw [step]
  exact congrArg Prod.snd (currentStep_binary _ filled inside)

/-- Behind the last byte of a chunk `Current()` refills through `Next()`. -/
theorem next_behind (readBuffer : ReadBuffer σ) (s : σ) (h : Binary r) (last : r.current + 1 = r.size) :
    (next readBuffer (r, s)).2 = (next readBuffer (stepped r, s)).2 := by
  have filled : Binary (stepped r) := ⟨h.notText, h.room⟩
  have step := next_unused readBuffer s h (by omega)
  have used : (stepped r).current = (stepped r).size := last
  have refill : nextStep readBuffer currentFilled (stepped r, s) = next readBuffer (stepped r, s) :=
    nextStep_currentFilled used
  rw [step, ← refill]
  simp [current, currentStep, filled.more, filled.notText, used]

/-- The rest of a chunk, `behind` being what comes once it is used up. -/
theorem yields_chunk {behind : List UInt8} (k : Nat) (h : Binary r) (left : r.current + 1 + k = r.size)
    (used : ∀ r', Binary r' → r'.current = r'.size → r'.buffer = r.buffer → Yields readBuffer (r', s) behind) :
    Yields readBuffer (r, s) ((List.range' (r.current + 1) k).map r.buffer.get ++ behind) := by
  induction k generalizing r with
  | zero =>
    have refill := next_behind readBuffer s h left
    have later := used (stepped r) ⟨h.notText, h.room⟩ left rfl
    cases behind with
    | nil =>
      show atEnd (next readBuffer (r, s)).2.1 = true
      rw [refill]
      exact later
    | cons byte more =>
      obtain ⟨-, shown, rest⟩ := later
      rw [← refill] at shown rest
      exact ⟨h.more, shown, rest⟩
  | succ k ih =>
    have inside : r.current + 1 < r.size := by omega
    have step := next_within readBuffer s h inside
    have filled : Binary (stepped r) := ⟨h.notText, h.room⟩
    have rest := ih filled (by show r.current + 1 + 1 + k = r.size; omega) used
    refine ⟨h.more, ?_, ?_⟩
    · rw [step]
      exact currentStep_binary _ filled inside
    · rw [step]
      exact rest

/-- **A reader over chunks yields what is reported of them.** -/
theorem serves_yields {chunks : List Reported} (serves : Serves readBuffer s chunks) (h : Binary r)
    (used : r.current = r.size) : Yields readBuffer (r, s) (handed r.buffer chunks) := by
  induction chunks generalizing r s with
  | nil =>
    have refused := serves r h.more
    show atEnd (next readBuffer (r, s)).2.1 = true
    match hr : readBuffer (r, s) with
    | (true, _, _) => simp [hr] at refused
    | (false, r', s') => simp [next, nextStep, h.more, used, hr]
  | cons c chunks ih =>
    obtain ⟨⟨some, room⟩, s', stored, later⟩ := serves
    have step := next_refilled h used some room (stored r h.more)
    have filled : Binary (refilled r c) := ⟨h.notText, room⟩
    obtain ⟨k, size⟩ : ∃ k, c.size = k + 1 := ⟨c.size - 1, by omega⟩
    have chunk := yields_chunk k filled (by show 0 + 1 + k = c.size; omega)
      fun r' binary used' same => by
        have rest := ih later binary used'
        rwa [same] at rest
    rw [handed, size, List.range_eq_range', List.range'_succ]
    refine ⟨h.more, ?_, ?_⟩
    · rw [step]
      exact currentStep_binary _ filled some
    · rw [step]
      exact chunk

/-! ## Streams -/

/-- The chunk of a stream, as `ReadBuffer()` reports it. -/
def Chunk.reported (c : Chunk) : Reported := ⟨c.bytes, c.bytes.length⟩

/-- A stream hands out its chunks. -/
theorem tape_serves (chunks : List Chunk) (tape : Tape) (same : tape.chunks = chunks) :
    Serves (fileReadBuffer readTape) tape (chunks.map Chunk.reported) := by
  have refills := fileReadBuffer_refills readTape_fits
  induction chunks generalizing tape with
  | nil =>
    intro r more
    refine (refills.refused r tape more ?_).1
    rw [fileFetch_readTape, same]
  | cons c chunks ih =>
    have some : 0 < c.bytes.length := List.length_pos_iff.2 c.some
    have room : c.bytes.length < readerBufferSize := Nat.lt_of_le_of_lt c.short (by decide)
    have fetched : fileFetch readTape tape = (c.bytes, { tape with chunks := chunks }) := by
      rw [fileFetch_readTape, same]
    refine ⟨⟨some, room⟩, { tape with chunks := chunks }, fun r more => ?_, ih _ rfl⟩
    have stored := refills.stored r tape more (by rw [fetched]; exact c.some)
    rw [fetched] at stored
    exact stored

/-- A chunk whose bytes have all been stored is handed out as it is. -/
theorem handed_stored (b : Buffer readerBufferSize) {bytes : List UInt8} (more : List Reported)
    (room : bytes.length ≤ readerBufferSize) :
    handed b (⟨bytes, bytes.length⟩ :: more) = bytes ++ handed (b.store bytes) more := by
  have chunk : (List.range bytes.length).map (b.store bytes).get = bytes := by
    apply List.ext_getElem
    · simp
    · intro i hi hi'
      rw [List.getElem_map, List.getElem_range]
      exact Buffer.get_store_of_lt hi' room
  rw [handed, chunk]

theorem handed_reported (b : Buffer readerBufferSize) (chunks : List Chunk) :
    handed b (chunks.map Chunk.reported) = contentOf chunks := by
  induction chunks generalizing b with
  | nil => rfl
  | cons c chunks ih =>
    have room : c.bytes.length ≤ readerBufferSize := Nat.le_trans c.short (by decide)
    rw [List.map_cons, Chunk.reported, handed_stored b _ room, ih]
    rfl

end Lavoro.Reader
