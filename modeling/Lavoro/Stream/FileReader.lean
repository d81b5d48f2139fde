import Lavoro.Stream.Deliver

/-!
# `LFileReader` over `Handle->Read`

`fileReadBuffer` is `LFileReader::ReadBuffer()`, over what `Handle->Read` does on a
source: given the buffer size it returns a status and the bytes it stored. The second
half is the reader's contract: over a handle that cuts a content into chunks in any
way, every mix of calls answers as the unbuffered content would.
-/

namespace Lavoro.Reader
open Lib

variable {σ : Type}

/-- `Handle->Read(&BufferSize, buffer)`: the status and the bytes stored; their number
is `BufferSize` on return. -/
abbrev HandleRead (σ : Type) := Nat → σ → EfiStatus × List UInt8 × σ

/-- `LFileReader::ReadBuffer()`. -/
def fileReadBuffer (handleRead : HandleRead σ) : ReadBuffer σ := fun p =>
  if !atEnd p.1 then
    let x := handleRead (readerBufferSize - 1) p.2
    let r := { p.1 with size := x.2.1.length, current := 0, buffer := p.1.buffer.store x.2.1 }
    if efiError x.1 then (false, r, x.2.2) else (r.current != r.size, r, x.2.2)
  else (false, p)

/-- What one refill gets out of the handle; an error counts as the end. -/
def fileFetch (handleRead : HandleRead σ) (s : σ) : List UInt8 × σ :=
  (if efiError (handleRead (readerBufferSize - 1) s).1 then []
    else (handleRead (readerBufferSize - 1) s).2.1, (handleRead (readerBufferSize - 1) s).2.2)

/-- `Handle->Read` never stores more than it was given room for. -/
def FitsBuffer (handleRead : HandleRead σ) : Prop :=
  ∀ n s, (handleRead n s).2.1.length ≤ n

theorem fileReadBuffer_refills {handleRead : HandleRead σ} (fits : FitsBuffer handleRead) :
    Refills (fileReadBuffer handleRead) (fileFetch handleRead) where
  short s := by
    have room : _ ≤ 127 := fits (readerBufferSize - 1) s
    show (if _ then _ else _ : List UInt8).length < 128
    split
    · exact Nat.succ_pos 127
    · omega
  stored r s more some := by
    cases err : efiError (handleRead (readerBufferSize - 1) s).1 with
    | true => simp [fileFetch, err] at some
    | false =>
      simp only [fileFetch, err, Bool.false_eq_true, if_false, ne_eq] at some
      have unread : (0 != (handleRead (readerBufferSize - 1) s).2.1.length) = true := by
        rw [bne_iff_ne]
        exact fun zero => some (List.length_eq_zero_iff.1 zero.symm)
      simp [fileReadBuffer, fileFetch, more, err, unread]
  refused r s more none := by
    cases err : efiError (handleRead (readerBufferSize - 1) s).1 with
    | true => simp [fileReadBuffer, fileFetch, more, err]
    | false =>
      simp only [fileFetch, err, Bool.false_eq_true, if_false] at none
      simp [fileReadBuffer, fileFetch, more, err, none]

/-! ## A handle that cuts its content into chunks -/

/-- What one successful `Handle->Read` stores before the end of the file. -/
structure Chunk where
  bytes : List UInt8
  some : bytes ≠ []
  short : bytes.length ≤ readerBufferSize - 1

/-- The content that a sequence of chunks cuts. -/
def contentOf (chunks : List Chunk) : List UInt8 := chunks.flatMap Chunk.bytes

/-- `Handle->Read` on a file cut into `chunks`; after the last one the size read is 0. -/
def readChunk : HandleRead (List Chunk) := fun n chunks =>
  match chunks with
  | [] => (efiSuccess, [], [])
  | c :: rest => (efiSuccess, c.bytes.take n, rest)

theorem readChunk_fits : FitsBuffer readChunk := by
  intro n chunks
  cases chunks with
  | nil => exact Nat.zero_le n
  | cons c rest => exact List.length_take_le n c.bytes

theorem fileFetch_readChunk (c : Chunk) (rest : List Chunk) :
    fileFetch readChunk (c :: rest) = (c.bytes, rest) := by
  simp [fileFetch, readChunk, List.take_of_length_le c.short]

theorem readChunk_supplies :
    Cursor.Supplies (fileFetch readChunk) (fun chunks l => l = contentOf chunks) where
  chunk chunks l h some := by
    subst h
    cases chunks with
    | nil => exact absurd rfl some
    | cons c rest =>
      rw [fileFetch_readChunk]
      exact ⟨contentOf rest, rfl, rfl⟩
  last chunks l h none := by
    subst h
    cases chunks with
    | nil => rfl
    | cons c rest =>
      rw [fileFetch_readChunk] at none
      exact absurd none c.some

/-! ## The contract of the buffered reader -/

/-- A call made on a reader. -/
inductive Call where
  | current
  | next
  | atEnd
  | read (n : Nat)
  deriving Repr, DecidableEq

/-- What a call answers; what `Next()` returns is the matter of another result. -/
inductive Reply where
  | byte (c : Int)
  | done
  | flag (b : Bool)
  | bytes (bs : List UInt8)
  deriving Repr, DecidableEq

/-- A call on the buffered reader. -/
def answer (readBuffer : ReadBuffer σ) (p : LReader × σ) : Call → Reply × LReader × σ
  | .current => (.byte (current readBuffer p).1, (current readBuffer p).2)
  | .next => (.done, (next readBuffer p).2)
  | .atEnd => (.flag (atEnd p.1), p)
  | .read n => (.bytes (read readBuffer n p).1, (read readBuffer n p).2)

/-- The same call on the unbuffered content, at a logical offset. -/
def specAnswer (content : List UInt8) (offset : Nat) : Call → Reply × Nat
  | .current =>
    (.byte (match content[offset]? with
      | some b => (b.toNat : Int)
      | none => readerEof), offset)
  | .next => (.done, min (offset + 1) content.length)
  | .atEnd => (.flag (decide (offset = content.length)), offset)
  | .read n => (.bytes ((content.drop offset).take n), min (offset + n) content.length)

/-- The answers to a sequence of calls. -/
def answers {S : Type} (ask : S → Call → Reply × S) : S → List Call → List Reply
  | _, [] => []
  | s, c :: rest => (ask s c).1 :: answers ask (ask s c).2 rest

/-- The reader delivers what the content holds from the logical offset on. -/
structure AtOffset (content : List UInt8) (p : LReader × List Chunk) (offset : Nat) : Prop where
  inside : offset ≤ content.length
  delivers : Delivers (fun chunks l => l = contentOf chunks) p (content.drop offset)

theorem drop_min {α : Type} (l : List α) (n : Nat) : l.drop (min n l.length) = l.drop n := by
  rcases Nat.le_total n l.length with le | ge
  · rw [Nat.min_eq_left le]
  · rw [Nat.min_eq_right ge, List.drop_length, List.drop_eq_nil_of_le ge]

/-- One call: the answers agree and the offset moves with the reader. -/
theorem answer_atOffset {content : List UInt8} {p : LReader × List Chunk} {offset : Nat}
    (h : AtOffset content p offset) (call : Call) :
    (answer (fileReadBuffer readChunk) p call).1 = (specAnswer content offset call).1 ∧
      AtOffset content (answer (fileReadBuffer readChunk) p call).2
        (specAnswer content offset call).2 := by
  have refills := fileReadBuffer_refills readChunk_fits
  cases call with
  | current =>
    have shown := current_delivers (fileReadBuffer readChunk) h.delivers
    rw [List.head?_drop] at shown
    have same : (current (fileReadBuffer readChunk) p).2 = p := congrArg Prod.snd shown
    refine ⟨congrArg Reply.byte (congrArg Prod.fst shown), ?_⟩
    rw [answer, same]
    exact h
  | next =>
    have moved := next_delivers refills readChunk_supplies h.delivers
    rw [List.tail_drop, ← drop_min] at moved
    exact ⟨rfl, Nat.min_le_right _ _, moved⟩
  | atEnd =>
    have ended := atEnd_delivers h.delivers
    have inside := h.inside
    have same : atEnd p.1 = decide (offset = content.length) := by
      rw [Bool.eq_iff_iff, decide_eq_true_iff, ended, List.drop_eq_nil_iff]
      omega
    exact ⟨congrArg Reply.flag same, h⟩
  | read n =>
    obtain ⟨bytes, moved⟩ := read_delivers refills readChunk_supplies n h.delivers
    rw [List.drop_drop, ← drop_min] at moved
    exact ⟨congrArg Reply.bytes bytes, Nat.min_le_right _ _, moved⟩

theorem answers_atOffset {content : List UInt8} (calls : List Call) :
    ∀ {p : LReader × List Chunk} {offset : Nat}, AtOffset content p offset →
      answers (answer (fileReadBuffer readChunk)) p calls =
        answers (specAnswer content) offset calls := by
  induction calls with
  | nil => intro p offset _; rfl
  | cons call rest ih =>
    intro p offset h
    obtain ⟨same, moved⟩ := answer_atOffset h call
    simp only [answers, same, ih moved]

/-- A reader constructed over `chunks` with any bytes in its buffer, after one `Next()`. -/
def primed (chunks : List Chunk) (buffer : Buffer readerBufferSize) : LReader × List Chunk :=
  (next (fileReadBuffer readChunk) (construct buffer, chunks)).2

theorem primed_delivers (chunks : List Chunk) (buffer : Buffer readerBufferSize) :
    Delivers (fun chunks l => l = contentOf chunks) (primed chunks buffer) (contentOf chunks) :=
  delivers_construct (fileReadBuffer_refills readChunk_fits) readChunk_supplies buffer rfl

/-- **The buffered reader is transparent.** Whatever the chunks and the initial buffer,
every sequence of calls on a primed reader answers as the content itself would, and the
reading loop ends having used exactly the content. -/
theorem reader_transparent (chunks : List Chunk) (buffer : Buffer readerBufferSize)
    (calls : List Call) :
    answers (answer (fileReadBuffer readChunk)) (primed chunks buffer) calls =
        answers (specAnswer (contentOf chunks)) 0 calls ∧
      ∃ q, Loop.Leaves (useTurn (fileReadBuffer readChunk)) ([], primed chunks buffer)
        (contentOf chunks, q) := by
  have delivers := primed_delivers chunks buffer
  refine ⟨answers_atOffset calls ⟨Nat.zero_le _, delivers⟩, ?_⟩
  obtain ⟨q, leaves, -⟩ := useTurn_leaves (fileReadBuffer_refills readChunk_fits) readChunk_supplies
    delivers
  exact ⟨q, leaves⟩

end Lavoro.Reader
