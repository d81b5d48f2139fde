import Lavoro.Stream.Requests

/-!
# What `Current()` and `Next()` return

`Current()` refills a buffer that is used up and then returns the byte at the current index
without asking whether the refill has found the end. So what it returns is `ReaderEof` exactly
where the reader is at its end, and else the byte at the current position, as long as it does not
have to refill a buffer behind the last byte of the stream (`Dry`). `Next()` returns what
`Current()` returns at the next index; only where nothing is left in the buffer it refills itself,
and says that there is nothing.
-/

namespace Lavoro.Reader

/-- How many bytes of the stream are in front of the current one: those of the chunks that were
handed out before the last, and those in front of the current index. -/
def position (chunks : List Chunk) (p : LReader × Tape) : Nat :=
  (contentOf chunks).length - (contentOf p.2.chunks).length - p.1.size + p.1.current

/-- What is returned is `ReaderEof` exactly at the end, and else the byte at the current position. -/
def Honest (chunks : List Chunk) (x : Int × LReader × Tape) : Prop :=
  (x.1 = readerEof ↔ atEnd x.2.1 = true) ∧
    (atEnd x.2.1 = false →
      ∃ b : UInt8, (contentOf chunks)[position chunks x.2]? = some b ∧ x.1 = (b.toNat : Int))

/-- The end that text mode sees: a NUL at the current index. -/
def SeesNul (r : LReader) : Prop := r.isText = true ∧ r.buffer.get r.current = 0

/-- The buffer is used up, no NUL is seen at the current index, and what the stream still has is
nothing, or for a text reader begins with a NUL. -/
def Dry (p : LReader × Tape) : Prop :=
  p.1.current = p.1.size ∧ ¬ SeesNul p.1 ∧
    match p.2.chunks with
    | [] => True
    | c :: _ => p.1.isText = true ∧ c.bytes.head? = some 0

/-- A reader on a stream of `chunks`: at its end, with nothing read, or in the chunk that was
handed out last or right behind it. -/
inductive Loaded (chunks : List Chunk) (p : LReader × Tape) : Prop where
  | ended (h : atEnd p.1 = true)
  | fresh (size : p.1.size = 0) (current : p.1.current = 0) (all : p.2.chunks = chunks)
  | here (taken : List Chunk) (c : Chunk) (cut : chunks = taken ++ c :: p.2.chunks)
      (size : p.1.size = c.bytes.length)
      (bytes : ∀ i (h : i < c.bytes.length), p.1.buffer.get i = c.bytes[i])
      (inside : p.1.current ≤ p.1.size)

/-- The end was said, or the byte at the current index of the chunk was returned. -/
inductive Sound (chunks : List Chunk) (x : Int × LReader × Tape) : Prop where
  | ended (eof : x.1 = readerEof) (h : atEnd x.2.1 = true)
  | byte (loaded : Loaded chunks x.2) (unread : x.2.1.current < x.2.1.size)
      (more : atEnd x.2.1 = false) (value : x.1 = ((x.2.1.buffer.get x.2.1.current).toNat : Int))

/-- The end was found, and a byte of the buffer returned. -/
def Stale (x : Int × LReader × Tape) : Prop :=
  atEnd x.2.1 = true ∧ ∃ b : UInt8, x.1 = (b.toNat : Int)

variable {chunks : List Chunk} {x : Int × LReader × Tape} {p : LReader × Tape}

theorem toNat_ne_readerEof (b : UInt8) : (b.toNat : Int) ≠ readerEof := by
  unfold readerEof
  omega

theorem contentOf_append (taken rest : List Chunk) :
    contentOf (taken ++ rest) = contentOf taken ++ contentOf rest :=
  List.flatMap_append

theorem contentOf_cons (c : Chunk) (rest : List Chunk) :
    contentOf (c :: rest) = c.bytes ++ contentOf rest :=
  List.flatMap_cons

/-- The byte at the current index of the chunk is the one at the current position. -/
theorem Loaded.byte (h : Loaded chunks p) (more : atEnd p.1 = false) (unread : p.1.current < p.1.size) :
    (contentOf chunks)[position chunks p]? = some (p.1.buffer.get p.1.current) := by
  cases h with
  | ended ended => rw [ended] at more; cases more
  | fresh size current all => omega
  | here taken c cut size bytes inside =>
    have lengths : (contentOf chunks).length =
        (contentOf taken).length + (c.bytes.length + (contentOf p.2.chunks).length) := by
      rw [cut, contentOf_append, contentOf_cons, List.length_append, List.length_append]
    have place : position chunks p = (contentOf taken).length + p.1.current := by
      unfold position
      omega
    have lt : p.1.current < c.bytes.length := by omega
    rw [place, bytes p.1.current lt, cut, contentOf_append, contentOf_cons,
      List.getElem?_append_right (Nat.le_add_right _ _), Nat.add_sub_cancel_left,
      List.getElem?_append_left lt, List.getElem?_eq_getElem lt]

/-- An index that is not behind the chunk is inside. -/
theorem Loaded.unread (h : Loaded chunks p) (more : atEnd p.1 = false) (unread : p.1.current ≠ p.1.size) :
    p.1.current < p.1.size := by
  cases h with
  | ended ended => rw [ended] at more; cases more
  | fresh size current all => omega
  | here taken c cut size bytes inside => exact Nat.lt_of_le_of_ne inside unread

theorem Sound.loaded (h : Sound chunks x) : Loaded chunks x.2 := by
  cases h with
  | ended eof ended => exact .ended ended
  | byte loaded unread more value => exact loaded

theorem Sound.honest (h : Sound chunks x) : Honest chunks x := by
  cases h with
  | ended eof ended => exact ⟨iff_of_true eof ended, by simp [ended]⟩
  | byte loaded unread more value =>
    have other : x.1 ≠ readerEof := value ▸ toNat_ne_readerEof _
    exact ⟨iff_of_false other (by simp [more]), fun _ => ⟨_, loaded.byte more unread, value⟩⟩

theorem Stale.not_honest (h : Stale x) : ¬ Honest chunks x := by
  obtain ⟨ended, b, value⟩ := h
  rintro ⟨same, -⟩
  exact toNat_ne_readerEof b (value.symm.trans (same.2 ended))

/-! ## `Current()` -/

/-- `Current()` in text mode at a NUL. -/
theorem currentStep_seesNul {next : LReader × Tape → Int × LReader × Tape} (more : atEnd p.1 = false)
    (nul : SeesNul p.1) : currentStep next p = (readerEof, markEnd p.1, p.2) := by
  obtain ⟨text, zero⟩ := nul
  simp [currentStep, more, text, zero]

theorem nulTest_false {r : LReader} (nul : ¬ SeesNul r) : (r.isText && r.buffer.get r.current == 0) = false := by
  rw [Bool.and_eq_false_imp]
  intro text
  exact beq_eq_false_iff_ne.2 fun zero => nul ⟨text, zero⟩

/-- `Current()` on a byte of the buffer. -/
theorem currentStep_unread {next : LReader × Tape → Int × LReader × Tape} (more : atEnd p.1 = false)
    (nul : ¬ SeesNul p.1) (unread : p.1.current ≠ p.1.size) :
    currentStep next p = (((p.1.buffer.get p.1.current).toNat : Int), p) := by
  have passes := nulTest_false nul
  simp [currentStep, more, passes, unread]

/-- `Current()` on a used-up buffer returns what is at the index at which `Next()` leaves the reader. -/
theorem currentStep_used {next : LReader × Tape → Int × LReader × Tape} (more : atEnd p.1 = false)
    (nul : ¬ SeesNul p.1) (used : p.1.current = p.1.size) :
    currentStep next p = ((((next p).2.1.buffer.get (next p).2.1.current).toNat : Int), (next p).2) := by
  have passes := nulTest_false nul
  rw [used] at passes
  simp [currentStep, more, passes, used]

/-- `Current()` in a chunk that is not used up. -/
theorem currentStep_sound {next : LReader × Tape → Int × LReader × Tape} (loaded : Loaded chunks p)
    (more : atEnd p.1 = false) (unread : p.1.current < p.1.size) : Sound chunks (currentStep next p) := by
  by_cases nul : SeesNul p.1
  · rw [currentStep_seesNul more nul]
    exact .ended rfl (atEnd_markEnd p.1)
  · rw [currentStep_unread more nul (Nat.ne_of_lt unread)]
    exact .byte loaded unread more rfl

/-- The chunk that a refill brings, at its first byte. -/
theorem loaded_filled (loaded : Loaded chunks p) (more : atEnd p.1 = false) {c : Chunk} {rest : List Chunk}
    (left : p.2.chunks = c :: rest) :
    Loaded chunks (filledWith p.1 c.bytes, { p.2 with chunks := rest }) := by
  have room : c.bytes.length ≤ readerBufferSize := Nat.le_trans c.short (Nat.sub_le _ _)
  have bytes : ∀ i (h : i < c.bytes.length), (filledWith p.1 c.bytes).buffer.get i = c.bytes[i] :=
    fun i h => Buffer.get_store_of_lt h room
  cases loaded with
  | ended ended => rw [ended] at more; cases more
  | fresh size current all =>
    refine .here [] c ?_ rfl bytes (Nat.zero_le _)
    rw [← all, left]
    rfl
  | here taken d cut size stored inside =>
    refine .here (taken ++ [d]) c ?_ rfl bytes (Nat.zero_le _)
    rw [cut, left, List.append_assoc]
    rfl

theorem Chunk.length_pos (c : Chunk) : 0 < c.bytes.length := List.length_pos_iff.2 c.some

theorem Chunk.small (c : Chunk) : c.bytes.length < readerBufferSize := Nat.lt_succ_of_le c.short

/-- `Next()` on a used-up buffer: the end, or the first byte of the next chunk. -/
theorem nextStep_spent (k : LReader × Tape → Int × LReader × Tape) (more : atEnd p.1 = false)
    (used : p.1.current = p.1.size) :
    (∃ q, nextStep (fileReadBuffer readTape) k p = (readerEof, q) ∧ atEnd q.1 = true ∧ p.2.chunks = []) ∨
      ∃ c rest, p.2.chunks = c :: rest ∧ nextStep (fileReadBuffer readTape) k p =
        k (filledWith p.1 c.bytes, { p.2 with chunks := rest }) := by
  have fetched := fileFetch_readTape p.2
  rcases nextStep_refill (s := p.2) (fileReadBuffer_refills readTape_fits) more used k with
    ⟨q, run, ended, -, empty⟩ | ⟨run, some⟩
  · refine .inl ⟨q, run, ended, ?_⟩
    cases left : p.2.chunks with
    | nil => rfl
    | cons c rest =>
      rw [left] at fetched
      rw [fetched] at empty
      exact absurd empty c.some
  · cases left : p.2.chunks with
    | nil =>
      rw [left] at fetched
      rw [fetched] at some
      exact absurd rfl some
    | cons c rest =>
      rw [left] at fetched
      rw [fetched] at run
      exact .inr ⟨c, rest, rfl, run⟩

theorem next_used_sound (loaded : Loaded chunks p) (more : atEnd p.1 = false)
    (used : p.1.current = p.1.size) : Sound chunks (next (fileReadBuffer readTape) p) := by
  rcases nextStep_spent (current (fileReadBuffer readTape)) more used with ⟨q, run, ended, -⟩ | ⟨c, rest, left, run⟩
  · rw [next, run]
    exact .ended rfl ended
  · rw [next, run]
    exact currentStep_sound (loaded_filled loaded more left) (atEnd_false_of_small c.small) c.length_pos

/-- `Current()` on a used-up buffer: the byte it returns is stale exactly where the stream is dry. -/
theorem current_used_outcome (loaded : Loaded chunks p) (more : atEnd p.1 = false) (nul : ¬ SeesNul p.1)
    (used : p.1.current = p.1.size) :
    (Dry p → Stale (current (fileReadBuffer readTape) p)) ∧
      (¬ Dry p → Sound chunks (current (fileReadBuffer readTape) p)) := by
  rw [current_eq, currentStep_used more nul used]
  rcases nextStep_spent (current (fileReadBuffer readTape)) more used with
    ⟨q, run, ended, empty⟩ | ⟨c, rest, left, run⟩
  · have dry : Dry p := by
      refine ⟨used, nul, ?_⟩
      rw [empty]
      trivial
    rw [next, run]
    exact ⟨fun _ => ⟨ended, _, rfl⟩, fun wet => absurd dry wet⟩
  · -- the chunk `c` is in the buffer, and `Next()` has called `Current()` on it
    have pos : 0 < c.bytes.length := c.length_pos
    have filled : atEnd (filledWith p.1 c.bytes) = false := atEnd_false_of_small c.small
    have first : (filledWith p.1 c.bytes).buffer.get 0 = c.bytes[0] :=
      Buffer.get_store_of_lt pos (Nat.le_of_lt c.small)
    have head : c.bytes.head? = some (c.bytes[0]) := by
      rw [List.head?_eq_getElem?, List.getElem?_eq_getElem pos]
    have unread : (filledWith p.1 c.bytes).current < (filledWith p.1 c.bytes).size := pos
    rw [next, run]
    by_cases zero : SeesNul (filledWith p.1 c.bytes)
    · have dry : Dry p := by
        refine ⟨used, nul, ?_⟩
        rw [left]
        refine ⟨zero.1, ?_⟩
        rw [head, ← first]
        exact congrArg some zero.2
      rw [current, currentStep_seesNul (p := (filledWith p.1 c.bytes, { p.2 with chunks := rest })) filled zero]
      exact ⟨fun _ => ⟨atEnd_markEnd _, _, rfl⟩, fun wet => absurd dry wet⟩
    · rw [current, currentStep_unread (p := (filledWith p.1 c.bytes, { p.2 with chunks := rest })) filled zero
        (Nat.ne_of_lt unread)]
      refine ⟨fun dry => ?_, fun _ => .byte (loaded_filled loaded more left) unread filled rfl⟩
      obtain ⟨-, -, nulNext⟩ := dry
      rw [left] at nulNext
      have same : some (c.bytes[0]) = some 0 := head.symm.trans nulNext.2
      exact absurd ⟨nulNext.1, first.trans (Option.some.inj same)⟩ zero

/-- **`Current()`** returns a stale byte exactly where the stream is dry. -/
theorem current_outcome (loaded : Loaded chunks p) :
    (atEnd p.1 = false ∧ Dry p → Stale (current (fileReadBuffer readTape) p)) ∧
      (¬ (atEnd p.1 = false ∧ Dry p) → Sound chunks (current (fileReadBuffer readTape) p)) := by
  cases more : atEnd p.1 with
  | true =>
    refine ⟨fun ⟨going, _⟩ => (by cases going), fun _ => ?_⟩
    rw [current_of_atEnd more]
    exact .ended rfl more
  | false =>
    by_cases nul : SeesNul p.1
    · refine ⟨fun ⟨_, dry⟩ => absurd nul dry.2.1, fun _ => ?_⟩
      rw [current, currentStep_seesNul more nul]
      exact .ended rfl (atEnd_markEnd p.1)
    · by_cases used : p.1.current = p.1.size
      · obtain ⟨stale, sound⟩ := current_used_outcome loaded more nul used
        exact ⟨fun dry => stale dry.2, fun wet => sound fun dry => wet ⟨rfl, dry⟩⟩
      · refine ⟨fun ⟨_, dry⟩ => absurd dry.1 used, fun _ => ?_⟩
        exact currentStep_sound loaded more (loaded.unread more used)

/-! ## `Next()` -/

/-- What `Next()` steps to in the buffer. -/
def nextIndex (p : LReader × Tape) : LReader × Tape := ({ p.1 with current := p.1.current + 1 }, p.2)

theorem loaded_nextIndex (loaded : Loaded chunks p) (more : atEnd p.1 = false)
    (unread : p.1.current ≠ p.1.size) : Loaded chunks (nextIndex p) := by
  have behind := loaded.unread more unread
  cases loaded with
  | ended ended => rw [ended] at more; cases more
  | fresh size current all => omega
  | here taken c cut size bytes inside => exact .here taken c cut size bytes behind

theorem next_unread (more : atEnd p.1 = false) (unread : p.1.current ≠ p.1.size) :
    next (fileReadBuffer readTape) p = current (fileReadBuffer readTape) (nextIndex p) := by
  simp [next, nextStep, more, unread, nextIndex]

/-- **`Next()`** returns a stale byte exactly where it steps behind the last byte of a dry stream. -/
theorem next_outcome (loaded : Loaded chunks p) :
    (atEnd p.1 = false ∧ p.1.current ≠ p.1.size ∧ Dry (nextIndex p) →
        Stale (next (fileReadBuffer readTape) p)) ∧
      (¬ (atEnd p.1 = false ∧ p.1.current ≠ p.1.size ∧ Dry (nextIndex p)) →
        Sound chunks (next (fileReadBuffer readTape) p)) := by
  cases more : atEnd p.1 with
  | true =>
    refine ⟨fun ⟨going, _⟩ => (by cases going), fun _ => ?_⟩
    rw [next_of_atEnd more]
    exact .ended rfl more
  | false =>
    by_cases used : p.1.current = p.1.size
    · exact ⟨fun ⟨_, unread, _⟩ => absurd used unread, fun _ => next_used_sound loaded more used⟩
    · obtain ⟨stale, sound⟩ := current_outcome (loaded_nextIndex loaded more used)
      rw [next_unread more used]
      refine ⟨fun ⟨_, _, dry⟩ => stale ⟨more, dry⟩, fun wet => sound fun ⟨_, dry⟩ => wet ⟨rfl, used, dry⟩⟩

/-! ## Histories -/

theorem Stale.loaded (h : Stale x) : Loaded chunks x.2 := .ended h.1

theorem loaded_requests (history : List Request) (h : Loaded chunks p) :
    Loaded chunks (requests (fileReadBuffer readTape) history p) := by
  apply requests_keep
  · intro q loaded
    obtain ⟨stale, sound⟩ := current_outcome loaded
    exact (Classical.em _).elim (fun dry => (stale dry).loaded) (fun wet => (sound wet).loaded)
  · intro q loaded
    obtain ⟨stale, sound⟩ := next_outcome loaded
    exact (Classical.em _).elim (fun dry => (stale dry).loaded) (fun wet => (sound wet).loaded)
  · exact h

/-- A constructed reader, for which `SetText()` has been called or not. -/
def opened (text : Bool) (buffer : Buffer readerBufferSize) : LReader :=
  if text then setText (construct buffer) else construct buffer

theorem loaded_opened (text : Bool) (buffer : Buffer readerBufferSize) (tape : Tape) :
    Loaded tape.chunks (opened text buffer, tape) := by
  cases text
  · exact .fresh rfl rfl rfl
  · exact .fresh rfl rfl rfl

/-- The two calls that return a byte. -/
inductive Look where
  | current
  | next
  deriving Repr, DecidableEq

def look (call : Look) (p : LReader × Tape) : Int × LReader × Tape :=
  match call with
  | .current => current (fileReadBuffer readTape) p
  | .next => next (fileReadBuffer readTape) p

/-- The call has `Current()` refill a buffer behind the last byte of the stream. -/
def RunsDry (call : Look) (p : LReader × Tape) : Prop :=
  atEnd p.1 = false ∧
    match call with
    | .current => Dry p
    | .next => p.1.current ≠ p.1.size ∧ Dry (nextIndex p)

theorem look_honest_iff (call : Look) (loaded : Loaded chunks p) :
    Honest chunks (look call p) ↔ ¬ RunsDry call p := by
  have decided : (RunsDry call p → Stale (look call p)) ∧ (¬ RunsDry call p → Sound chunks (look call p)) := by
    cases call with
    | current => exact current_outcome loaded
    | next => exact next_outcome loaded
  exact ⟨fun honest dry => (decided.1 dry).not_honest honest, fun wet => (decided.2 wet).honest⟩

/-- **`Current()` and `Next()` return `ReaderEof` exactly at the end and else the byte at the current
position**, unless `Current()` has to refill behind the last byte of the stream. -/
theorem returned_honest_iff (tape : Tape) (text : Bool) (buffer : Buffer readerBufferSize)
    (history : List Request) (call : Look) :
    Honest tape.chunks (look call (requests (fileReadBuffer readTape) history (opened text buffer, tape))) ↔
      ¬ RunsDry call (requests (fileReadBuffer readTape) history (opened text buffer, tape)) :=
  look_honest_iff call (loaded_requests history (loaded_opened text buffer tape))

/-- The stream of one byte, 65. -/
def oneByte : Tape := .ending [⟨[65], List.cons_ne_nil _ _, by decide⟩]

/-- Behind the one byte of its stream `Next()` returns that byte again. -/
theorem next_returns_stale :
    ¬ Honest oneByte.chunks (look .next (requests (fileReadBuffer readTape) [.next]
      (opened false fun _ => 0, oneByte))) := by
  apply Stale.not_honest
  exact ⟨by decide, 65, by decide⟩

end Lavoro.Reader
