import Lavoro.Stream.LineMemory
import Lavoro.Stream.Returned

/-!
# Readers that have not been primed

Some callers call `Next()` before anything else, others do not. The first `Current()` of a reader
leaves it where the first `Next()` would, so from then on the two readers answer alike. They differ
where nothing comes of it: on an empty stream what `Current()` returns is a byte of the buffer, and
`Read(Buffer, 0)` calls nothing at all.
-/

namespace Lavoro
open Lib

namespace Reader

variable {σ : Type}

/-- A call whose results a client sees. -/
inductive Ask where
  | current
  | next
  | atEnd
  | read (n : Nat)
  | readLine (memory : Int → UInt16)

/-- What it sees: of `ReadLine(Buffer)` the memory and the number returned. -/
inductive Answered where
  | value (c : Int)
  | flag (b : Bool)
  | bytes (bs : List UInt8)
  | line (memory : Int → UInt16) (returned : Nat)

/-- A call, what it answers and the reader it leaves. -/
inductive Answers (readBuffer : ReadBuffer σ) (p : LReader × σ) : Ask → Answered → LReader × σ → Prop where
  | current : Answers readBuffer p .current (.value (current readBuffer p).1) (current readBuffer p).2
  | next : Answers readBuffer p .next (.value (next readBuffer p).1) (next readBuffer p).2
  | atEnd : Answers readBuffer p .atEnd (.flag (atEnd p.1)) p
  | read (n : Nat) : Answers readBuffer p (.read n) (.bytes (read readBuffer n p).1) (read readBuffer n p).2
  | readLine {turns memory m q} (ends : readLineAt readBuffer turns memory p = .leave (m, q)) :
      Answers readBuffer p (.readLine memory) (.line m.unit m.returned) q

/-- A sequence of calls and what they answer. -/
inductive Dialogue (readBuffer : ReadBuffer σ) : LReader × σ → List Ask → List Answered → Prop where
  | nil (p) : Dialogue readBuffer p [] []
  | cons {p q a r asks rs} (answers : Answers readBuffer p a r q) (later : Dialogue readBuffer q asks rs) :
      Dialogue readBuffer p (a :: asks) (r :: rs)

variable {readBuffer : ReadBuffer σ} {p p' : LReader × σ}

theorem readLineAt_unique {turns turns' : Nat} {memory : Int → UInt16} {x y : LineMemory × LReader × σ}
    (hx : readLineAt readBuffer turns memory p = .leave x)
    (hy : readLineAt readBuffer turns' memory p = .leave y) : x = y := by
  obtain ⟨m, q⟩ := x
  obtain ⟨m', q'⟩ := y
  obtain ⟨stored, loop, rfl⟩ := readLineAt_leave_iff.1 hx
  obtain ⟨stored', loop', rfl⟩ := readLineAt_leave_iff.1 hy
  obtain ⟨rfl, rfl⟩ := Prod.mk.inj (readLine_unique loop loop')
  rfl

theorem answers_unique {a : Ask} {r r' : Answered} {q q' : LReader × σ} (h : Answers readBuffer p a r q)
    (h' : Answers readBuffer p a r' q') : r = r' ∧ q = q' := by
  cases h with
  | readLine ends =>
    cases h' with
    | readLine ends' =>
      obtain ⟨rfl, rfl⟩ := Prod.mk.inj (readLineAt_unique ends ends')
      exact ⟨rfl, rfl⟩
  | _ =>
    cases h'
    exact ⟨rfl, rfl⟩

theorem dialogue_unique {asks : List Ask} {rs rs' : List Answered} (h : Dialogue readBuffer p asks rs)
    (h' : Dialogue readBuffer p asks rs') : rs = rs' := by
  induction h generalizing rs' with
  | nil p =>
    cases h'
    rfl
  | cons answers later ih =>
    cases h' with
    | cons answers' later' =>
      obtain ⟨rfl, rfl⟩ := answers_unique answers answers'
      rw [ih later']

/-- Two readers that answer a call alike and are then the same. -/
theorem dialogue_congr {a : Ask} (same : ∀ r q, Answers readBuffer p a r q ↔ Answers readBuffer p' a r q)
    (later : List Ask) (rs : List Answered) :
    Dialogue readBuffer p (a :: later) rs ↔ Dialogue readBuffer p' (a :: later) rs := by
  constructor
  · intro h
    cases h with
    | cons answers rest => exact .cons ((same _ _).1 answers) rest
  · intro h
    cases h with
    | cons answers rest => exact .cons ((same _ _).2 answers) rest

/-! ## A reader on something -/

/-- What a call other than `Next()` answers depends only on what `Current()` does. -/
theorem answers_of_current {a : Ask} {r : Answered} {q : LReader × σ} (more : atEnd p.1 = false)
    (more' : atEnd p'.1 = false) (agree : current readBuffer p = current readBuffer p')
    (call : a = .current ∨ (∃ n, a = .read (n + 1)) ∨ ∃ memory, a = .readLine memory)
    (h : Answers readBuffer p a r q) : Answers readBuffer p' a r q := by
  rcases call with rfl | ⟨n, rfl⟩ | ⟨memory, rfl⟩
  · cases h
    rw [agree]
    exact .current
  · have reads : read readBuffer (n + 1) p = read readBuffer (n + 1) p' := by
      simp only [read, more, more', Bool.false_eq_true, if_false, agree]
    cases h
    rw [reads]
    exact .read _
  · have turn : readLineTurn readBuffer ([], p) = readLineTurn readBuffer ([], p') := by
      simp only [readLineTurn, more, more', Bool.false_eq_true, if_false, agree]
    cases h with
    | readLine ends =>
      obtain ⟨stored, loop, rfl⟩ := readLineAt_leave_iff.1 ends
      have leaves : Loop.Leaves (readLineTurn readBuffer) ([], p) (stored, q) :=
        ⟨_, Loop.after_eq_leave_iff.1 loop⟩
      obtain ⟨turns', run⟩ := (Loop.leaves_of_turn_eq turn).1 leaves
      exact .readLine (readLineAt_leave_iff.2 ⟨stored, Loop.after_eq_leave_iff.2 run, rfl⟩)

/-- The first call on a reader, in the callers that do not prime it. -/
inductive First where
  | current
  | read (n : Nat)
  | readLine (memory : Int → UInt16)

def First.ask : First → Ask
  | .current => .current
  | .read n => .read n
  | .readLine memory => .readLine memory

/-- A reader constructed on a stream, and the same after one `Next()`. -/
def unprimedOn (buffer : Buffer readerBufferSize) (tape : Tape) : LReader × Tape := (construct buffer, tape)

def primedOn (buffer : Buffer readerBufferSize) (tape : Tape) : LReader × Tape :=
  (next (fileReadBuffer readTape) (unprimedOn buffer tape)).2

/-- The two answer alike from their first call on. -/
def AnswerAlike (buffer : Buffer readerBufferSize) (tape : Tape) (first : First) : Prop :=
  ∀ later rs, Dialogue (fileReadBuffer readTape) (unprimedOn buffer tape) (first.ask :: later) rs ↔
    Dialogue (fileReadBuffer readTape) (primedOn buffer tape) (first.ask :: later) rs

section Streams

variable {buffer : Buffer readerBufferSize} {tape : Tape} {call : First}

theorem primedOn_delivers (buffer : Buffer readerBufferSize) (tape : Tape) :
    Delivers (fun tape l => l = contentOf tape.chunks) (primedOn buffer tape) (contentOf tape.chunks) :=
  delivers_construct (fileReadBuffer_refills readTape_fits) readTape_supplies buffer rfl

theorem current_unprimedOn (buffer : Buffer readerBufferSize) (tape : Tape) :
    (current (fileReadBuffer readTape) (unprimedOn buffer tape)).2 = primedOn buffer tape :=
  current_primes (plain_construct buffer) (view_construct buffer)

/-- **On something to read** a first call that does `Current()` needs no `Next()` before it. -/
theorem alike_of_content (some' : contentOf tape.chunks ≠ [])
    (shows : call.ask = .current ∨ (∃ n, call.ask = .read (n + 1)) ∨ ∃ memory, call.ask = .readLine memory) :
    AnswerAlike buffer tape call := by
  obtain ⟨b, l, content⟩ := List.exists_cons_of_ne_nil some'
  have ready : Ready (fun tape l => l = contentOf tape.chunks) (unprimedOn buffer tape) (b :: l) :=
    .fresh (plain_construct buffer) (view_construct buffer) content.symm (List.cons_ne_nil b l)
  obtain ⟨q, first, again, delivers⟩ := ready.current (fileReadBuffer_refills readTape_fits) readTape_supplies
  have primes : q = primedOn buffer tape := (congrArg Prod.snd first).symm.trans (current_unprimedOn buffer tape)
  rw [primes] at first again delivers
  have more : atEnd (unprimedOn buffer tape).1 = false := rfl
  have more' := atEnd_delivers_cons delivers
  have agree := first.trans again.symm
  intro later rs
  exact dialogue_congr (fun r q => ⟨answers_of_current more more' agree shows,
    answers_of_current more' more agree.symm shows⟩) later rs

/-- A `Read` of no bytes primes nothing: the next `Next()` gets to the first byte and not to the second. -/
theorem read_nothing (some' : contentOf tape.chunks ≠ []) : ¬ AnswerAlike buffer tape (.read 0) := by
  intro alike
  have refills := fileReadBuffer_refills readTape_fits
  have whole := (read_delivers refills readTape_supplies (contentOf tape.chunks).length
    (primedOn_delivers buffer tape)).1
  have behind := (read_delivers refills readTape_supplies (contentOf tape.chunks).length
    (next_delivers refills readTape_supplies (primedOn_delivers buffer tape))).1
  have unprimed : Dialogue (fileReadBuffer readTape) (unprimedOn buffer tape)
      [.read 0, .next, .read (contentOf tape.chunks).length] _ :=
    .cons (.read 0) (.cons .next (.cons (.read _) (.nil _)))
  have primed : Dialogue (fileReadBuffer readTape) (primedOn buffer tape)
      [.read 0, .next, .read (contentOf tape.chunks).length] _ :=
    .cons (.read 0) (.cons .next (.cons (.read _) (.nil _)))
  have same := dialogue_unique ((alike _ _).1 unprimed) primed
  injection same with _ same
  injection same with _ same
  injection same with same _
  injection same with bytes
  have lengths := congrArg List.length (whole.symm.trans (bytes.trans behind))
  have pos := List.length_pos_iff.2 some'
  simp only [List.length_take, List.length_tail] at lengths
  omega

/-! ## A reader on nothing -/

theorem contentOf_eq_nil {chunks : List Chunk} : contentOf chunks = [] ↔ chunks = [] := by
  cases chunks with
  | nil => exact iff_of_true rfl rfl
  | cons c rest =>
    refine iff_of_false (fun empty => ?_) (List.cons_ne_nil c rest)
    rw [contentOf_cons] at empty
    exact c.some (List.append_eq_nil_iff.1 empty).1

/-- The first byte of the buffer, when the stream has been found empty: a failing read may have
stored something. -/
def oldByte (buffer : Buffer readerBufferSize) (tape : Tape) : UInt8 :=
  (buffer.store (tape.last.2.take (readerBufferSize - 1))).get 0

/-- `Current()` of a reader on nothing returns what its buffer begins with. -/
theorem current_oldByte (buffer : Buffer readerBufferSize) (empty : tape.chunks = []) :
    (current (fileReadBuffer readTape) (unprimedOn buffer tape)).1 = ((oldByte buffer tape).toNat : Int) := by
  have used : currentStep (next (fileReadBuffer readTape)) (unprimedOn buffer tape) = _ :=
    currentStep_used rfl (fun nul => Bool.false_ne_true nul.1) rfl
  have refill : fileReadBuffer readTape (unprimedOn buffer tape) =
      (false, { construct buffer with
        size := (tape.last.2.take (readerBufferSize - 1)).length,
        buffer := buffer.store (tape.last.2.take (readerBufferSize - 1)) }, tape) := by
    cases err : efiError tape.last.1 with
    | true => simp [fileReadBuffer, unprimedOn, construct, atEnd, sizeAtEnd, readTape, empty, err]
    | false => simp [fileReadBuffer, unprimedOn, construct, atEnd, sizeAtEnd, readTape, empty, err, tape.ends err]
  have moved : (next (fileReadBuffer readTape) (unprimedOn buffer tape)).2 =
      (markEnd { construct buffer with
        size := (tape.last.2.take (readerBufferSize - 1)).length,
        buffer := buffer.store (tape.last.2.take (readerBufferSize - 1)) }, tape) := by
    have fresh : atEnd (unprimedOn buffer tape).1 = false := rfl
    rw [next, nextStep, fresh, refill]
    rfl
  rw [current_eq, used, moved]
  rfl

theorem primedOn_atEnd (buffer : Buffer readerBufferSize) (empty : contentOf tape.chunks = []) : atEnd (primedOn buffer tape).1 = true :=
  (atEnd_delivers (primedOn_delivers buffer tape)).2 empty

/-- Both find nothing in `ReadLine`, the one because of a line feed in its buffer. -/
theorem alike_of_feed (empty : contentOf tape.chunks = []) (feed : oldByte buffer tape = 10)
    (memory : Int → UInt16) : AnswerAlike buffer tape (.readLine memory) := by
  have ended := primedOn_atEnd buffer empty
  have shown := current_oldByte buffer (contentOf_eq_nil.1 empty)
  have primes := current_unprimedOn buffer tape
  have unprimed : Answers (fileReadBuffer readTape) (unprimedOn buffer tape) (.readLine memory)
      (.line (LineMemory.holding memory []).terminate.unit (LineMemory.holding memory []).terminate.returned)
      (primedOn buffer tape) := by
    have loop : readLine (fileReadBuffer readTape) 2 (unprimedOn buffer tape) = _ :=
      readLine_exhausted rfl (by rw [primes]; exact ended)
    rw [shown, feed, primes] at loop
    exact .readLine (readLineAt_leave_iff.2 ⟨_, loop, rfl⟩)
  have primed : Answers (fileReadBuffer readTape) (primedOn buffer tape) (.readLine memory)
      (.line (LineMemory.holding memory []).terminate.unit (LineMemory.holding memory []).terminate.returned)
      (primedOn buffer tape) := by
    have stop : readLineTurn (fileReadBuffer readTape) ([], primedOn buffer tape) =
        .leave ([], primedOn buffer tape) := if_pos ended
    exact .readLine (readLineAt_leave_iff.2 ⟨_, Loop.after_leave (n := 0) stop, rfl⟩)
  intro later rs
  apply dialogue_congr
  intro r q
  constructor
  · intro h
    obtain ⟨rfl, rfl⟩ := answers_unique h unprimed
    exact primed
  · intro h
    obtain ⟨rfl, rfl⟩ := answers_unique h primed
    exact unprimed

/-- What the two answer to one call, if they answer alike. -/
theorem AnswerAlike.once (alike : AnswerAlike buffer tape call) {r r' : Answered} {q q' : LReader × Tape}
    (h : Answers (fileReadBuffer readTape) (unprimedOn buffer tape) call.ask r q)
    (h' : Answers (fileReadBuffer readTape) (primedOn buffer tape) call.ask r' q') : r = r' := by
  have same := dialogue_unique ((alike [] _).1 (.cons h (.nil q))) (.cons h' (.nil q'))
  injection same

theorem not_alike_current (empty : contentOf tape.chunks = []) : ¬ AnswerAlike buffer tape .current := by
  intro alike
  have same := alike.once .current .current
  rw [current_oldByte buffer (contentOf_eq_nil.1 empty), current_of_atEnd (primedOn_atEnd buffer empty)] at same
  injection same with value
  exact toNat_ne_readerEof _ value

theorem not_alike_read (empty : contentOf tape.chunks = []) (n : Nat) :
    ¬ AnswerAlike buffer tape (.read n) := by
  intro alike
  have ended := primedOn_atEnd buffer empty
  cases n with
  | zero =>
    -- the reader that has read nothing does not know of its end
    have same := dialogue_unique
      ((alike [.atEnd] _).1 (.cons (.read 0) (.cons .atEnd (.nil _)))) (.cons (.read 0) (.cons .atEnd (.nil _)))
    injection same with _ same
    injection same with same _
    injection same with flag
    exact Bool.false_ne_true (flag.trans ended)
  | succ n =>
    have same := alike.once (.read (n + 1)) (.read (n + 1))
    have nothing : (read (fileReadBuffer readTape) (n + 1) (primedOn buffer tape)).1 = [] := by
      simp [read, ended]
    have more : atEnd (unprimedOn buffer tape).1 = false := rfl
    injection same with bytes
    rw [nothing] at bytes
    simp [read, more] at bytes

theorem not_alike_readLine (empty : contentOf tape.chunks = []) (other : oldByte buffer tape ≠ 10)
    (memory : Int → UInt16) : ¬ AnswerAlike buffer tape (.readLine memory) := by
  intro alike
  have ended := primedOn_atEnd buffer empty
  have shown := current_oldByte buffer (contentOf_eq_nil.1 empty)
  have noFeed : ((oldByte buffer tape).toNat : Int) ≠ 10 := fun eq => other (UInt8.toNat_inj.1 (Int.ofNat_inj.1 eq))
  have loop : readLine (fileReadBuffer readTape) 2 (unprimedOn buffer tape) = _ :=
    readLine_exhausted rfl (by rw [current_unprimedOn]; exact ended)
  rw [shown, if_neg noFeed] at loop
  have stop : readLineTurn (fileReadBuffer readTape) ([], primedOn buffer tape) =
      .leave ([], primedOn buffer tape) := if_pos ended
  have same := alike.once (.readLine (readLineAt_leave_iff.2 ⟨_, loop, rfl⟩))
    (.readLine (readLineAt_leave_iff.2 ⟨_, Loop.after_leave (n := 0) stop, rfl⟩))
  injection same with _ returned
  have one : (LineMemory.holding memory [65535]).terminate.returned = 1 := by
    rw [LineMemory.terminate_other (by simp) (by decide)]
    rfl
  have none : (LineMemory.holding memory []).terminate.returned ≠ 1 := by
    unfold LineMemory.terminate
    split
    · show (((0 : Int) - 1) % 4294967296).toNat ≠ 1
      decide
    · show ((0 : Int) % 4294967296).toNat ≠ 1
      decide
  exact none (returned.symm.trans one)

/-- The first call may do without `Next()`. -/
def NoPriming (buffer : Buffer readerBufferSize) (tape : Tape) (first : First) : Prop :=
  (contentOf tape.chunks ≠ [] ∧ first ≠ .read 0) ∨
    (contentOf tape.chunks = [] ∧ ∃ memory, first = .readLine memory ∧ oldByte buffer tape = 10)

end Streams

/-- **Priming is unnecessary** where there is something to read and the first call is not a `Read` of no
bytes; on an empty stream only for a `ReadLine` that finds a line feed in the reader's buffer. -/
theorem answerAlike_iff (buffer : Buffer readerBufferSize) (tape : Tape) (first : First) :
    AnswerAlike buffer tape first ↔ NoPriming buffer tape first := by
  by_cases empty : contentOf tape.chunks = []
  · constructor
    · intro alike
      refine .inr ⟨empty, ?_⟩
      cases first with
      | current => exact absurd alike (not_alike_current empty)
      | read n => exact absurd alike (not_alike_read empty n)
      | readLine memory =>
        refine ⟨memory, rfl, ?_⟩
        apply Classical.byContradiction
        exact fun other => not_alike_readLine empty other memory alike
    · rintro (⟨some', -⟩ | ⟨-, memory, rfl, feed⟩)
      · exact absurd empty some'
      · exact alike_of_feed empty feed memory
  · constructor
    · intro alike
      refine .inl ⟨empty, ?_⟩
      rintro rfl
      exact read_nothing empty alike
    · rintro (⟨some', call⟩ | ⟨nothing, -⟩)
      · apply alike_of_content some'
        cases first with
        | current => exact .inl rfl
        | read n =>
          cases n with
          | zero => exact absurd rfl call
          | succ n => exact .inr (.inl ⟨n, rfl⟩)
        | readLine memory => exact .inr (.inr ⟨memory, rfl⟩)
      · exact absurd nothing empty

/-- The stream of nothing. -/
def emptyStream : Tape := .ending []

/-- On an empty stream `Current()` returns a byte of the buffer. -/
theorem emptyStream_not_alike : ¬ AnswerAlike (fun _ => 65) emptyStream .current :=
  not_alike_current rfl

end Reader

end Lavoro
