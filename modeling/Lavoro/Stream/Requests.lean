import Lavoro.Stream.FileReader

/-!
# Histories of a reader

A client calls `Current()`, `Next()`, `Read` and `ReadLine` in any order. Whatever it calls, the
reader only ever does `Current()` and `Next()`, so what these two keep is kept by every history
(`requests_keep`). The streams here are `Tape`s: chunks, behind the last of which `Handle->Read`
reports the end of the file or an error.
-/

namespace Lavoro
open Lib

/-- The conversion of an `int` to `CHAR16`. -/
def toUnit (c : Int) : UInt16 := UInt16.ofNat (c % 65536).toNat

theorem toUnit_byte (b : UInt8) : toUnit (b.toNat : Int) = b.toUInt16 := by
  have small := b.toNat_lt
  have value : ((b.toNat : Int) % 65536).toNat = b.toNat := by omega
  rw [toUnit, value]
  exact UInt16.toNat_inj.1 (by simp)

namespace Reader

variable {σ : Type}

/-- One turn of the loop of `ReadLine`, with the units stored so far. -/
def readLineTurn (readBuffer : ReadBuffer σ) (x : Str16 × LReader × σ) :
    Turn (Str16 × LReader × σ) (Str16 × LReader × σ) :=
  if atEnd x.2.1 then .leave x
  else
    let c := current readBuffer x.2
    if c.1 = 10 then .leave (x.1, (next readBuffer c.2).2)
    else
      let d := current readBuffer c.2
      .again (x.1 ++ [toUnit d.1], (next readBuffer d.2).2)

/-- The loop of `ReadLine(Buffer)`. -/
def readLine (readBuffer : ReadBuffer σ) (turns : Nat) (p : LReader × σ) :
    Turn (Str16 × LReader × σ) (Str16 × LReader × σ) :=
  Loop.after (readLineTurn readBuffer) turns ([], p)

/-- A call that a client makes; of `ReadLine` as many turns are done. -/
inductive Request where
  | current
  | next
  | read (n : Nat)
  | readLine (turns : Nat)
  deriving Repr, DecidableEq

/-- The reader that a call leaves. -/
def request (readBuffer : ReadBuffer σ) (p : LReader × σ) : Request → LReader × σ
  | .current => (current readBuffer p).2
  | .next => (next readBuffer p).2
  | .read n => (read readBuffer n p).2
  | .readLine turns => (readLine readBuffer turns p).state.2

def requests (readBuffer : ReadBuffer σ) (history : List Request) (p : LReader × σ) : LReader × σ :=
  history.foldl (request readBuffer) p

section Keep

variable {readBuffer : ReadBuffer σ} {P : LReader × σ → Prop}

/-- `Read` does `Current()` and `Next()`. -/
theorem read_keep (shown : ∀ p, P p → P (current readBuffer p).2) (moved : ∀ p, P p → P (next readBuffer p).2)
    (n : Nat) {p : LReader × σ} (h : P p) : P (read readBuffer n p).2 := by
  induction n generalizing p with
  | zero => exact h
  | succ n ih =>
    unfold read
    split
    · exact h
    · exact ih (moved _ (shown _ h))

/-- So does `ReadLine`. -/
theorem readLineTurn_keep (shown : ∀ p, P p → P (current readBuffer p).2)
    (moved : ∀ p, P p → P (next readBuffer p).2) (x : Str16 × LReader × σ) (h : P x.2) :
    P (readLineTurn readBuffer x).state.2 := by
  unfold readLineTurn
  split
  · exact h
  · simp only
    split
    · exact moved _ (shown _ h)
    · exact moved _ (shown _ (shown _ h))

/-- **What `Current()` and `Next()` keep is kept by every history.** -/
theorem requests_keep (shown : ∀ p, P p → P (current readBuffer p).2)
    (moved : ∀ p, P p → P (next readBuffer p).2) (history : List Request) {p : LReader × σ} (h : P p) :
    P (requests readBuffer history p) := by
  induction history generalizing p with
  | nil => exact h
  | cons a history ih =>
    apply ih
    cases a with
    | current => exact shown p h
    | next => exact moved p h
    | read n => exact read_keep shown moved n h
    | readLine turns =>
      let Inv (x : Str16 × LReader × σ) : Prop := P x.2
      have turn : ∀ x, Inv x → Inv (readLineTurn readBuffer x).state := readLineTurn_keep shown moved
      exact Loop.after_keeps turn turns (s := ([], p)) h

end Keep

section Fresh

variable {readBuffer : ReadBuffer σ} {fetch : σ → List UInt8 × σ} {p : LReader × σ}

/-- A fresh reader has used up what is in its buffer. -/
theorem fresh_used (plain : Plain p.1) (fresh : view p.1 = .fresh) :
    atEnd p.1 = false ∧ p.1.current = p.1.size := by
  have more : atEnd p.1 = false := by
    rw [← Bool.not_eq_true]
    intro ended
    rw [view_ended ended] at fresh
    cases fresh
  refine ⟨more, ?_⟩
  apply Classical.byContradiction
  intro unused
  have inside := plain.inside more
  rw [view_here more (by omega)] at fresh
  cases fresh

/-- The first `Current()` leaves a fresh reader where the first `Next()` leaves it. -/
theorem current_primes (plain : Plain p.1) (fresh : view p.1 = .fresh) :
    (current readBuffer p).2 = (next readBuffer p).2 := by
  obtain ⟨more, used⟩ := fresh_used plain fresh
  exact (current_used plain more used).trans (congrArg Prod.snd (nextStep_currentFilled used))

/-- A started reader stays where it is on `Current()`. -/
theorem current_stays (plain : Plain p.1) (started : view p.1 ≠ .fresh) : (current readBuffer p).2 = p :=
  congrArg Prod.snd (current_view (s := p.2) plain started)

/-- The indices of a reader stay in its buffer. -/
theorem plain_requests (refills : Refills readBuffer fetch) (history : List Request) (plain : Plain p.1) :
    Plain (requests readBuffer history p).1 := by
  let Inv (q : LReader × σ) : Prop := Plain q.1
  have moved : ∀ q, Inv q → Inv (next readBuffer q).2 := fun q h => next_plain refills h
  have shown : ∀ q, Inv q → Inv (current readBuffer q).2 := by
    intro q h
    by_cases fresh : view q.1 = .fresh
    · rw [current_primes h fresh]
      exact moved q h
    · rw [current_stays h fresh]
      exact h
  exact requests_keep shown moved history plain

end Fresh

/-! ## Streams -/

/-- The chunks of a stream and the answer behind the last of them: an error, or no bytes. -/
structure Tape where
  chunks : List Chunk
  last : EfiStatus × List UInt8
  ends : efiError last.1 = false → last.2 = []

/-- A stream that ends without an error. -/
def Tape.ending (chunks : List Chunk) : Tape where
  chunks
  last := (efiSuccess, [])
  ends _ := rfl

/-- `Handle->Read` on a stream. -/
def readTape : HandleRead Tape := fun n tape =>
  match tape.chunks with
  | [] => (tape.last.1, tape.last.2.take n, tape)
  | c :: rest => (efiSuccess, c.bytes.take n, { tape with chunks := rest })

theorem readTape_fits : FitsBuffer readTape := by
  intro n tape
  unfold readTape
  split
  · exact List.length_take_le n _
  · exact List.length_take_le n _

/-- What a refill gets out of a stream: the next chunk, and nothing behind the last. -/
theorem fileFetch_readTape (tape : Tape) :
    fileFetch readTape tape =
      match tape.chunks with
      | [] => ([], tape)
      | c :: rest => (c.bytes, { tape with chunks := rest }) := by
  cases left : tape.chunks with
  | nil =>
    cases err : efiError tape.last.1 with
    | true => simp [fileFetch, readTape, left, err]
    | false => simp [fileFetch, readTape, left, err, tape.ends err]
  | cons c rest => simp [fileFetch, readTape, left, List.take_of_length_le c.short]

theorem readTape_supplies :
    Cursor.Supplies (fileFetch readTape) (fun tape l => l = contentOf tape.chunks) where
  chunk tape l h some := by
    subst h
    rw [fileFetch_readTape] at some ⊢
    cases left : tape.chunks with
    | nil => simp [left] at some
    | cons c rest => exact ⟨contentOf rest, rfl, rfl⟩
  last tape l h none := by
    subst h
    rw [fileFetch_readTape] at none
    cases left : tape.chunks with
    | nil => rfl
    | cons c rest =>
      rw [left] at none
      exact absurd none c.some

/-- What a reader has still to deliver: the rest of the chunk in its buffer and the chunks behind it. -/
def left (p : LReader × Tape) : List UInt8 :=
  if atEnd p.1 then [] else unread p.1 ++ contentOf p.2.chunks

section Left

variable {p : LReader × Tape} {l : List UInt8}

theorem left_delivers (h : Delivers (fun tape l => l = contentOf tape.chunks) p l) : left p = l := by
  obtain ⟨plain, started, rep⟩ := h
  cases more : atEnd p.1 with
  | true =>
    rw [view_ended more] at rep
    exact (if_pos more).trans rep.symm
  | false =>
    have unused : p.1.current ≠ p.1.size := fun used => started (view_fresh more used)
    have inside := plain.inside more
    rw [view_here more (by omega)] at rep
    obtain ⟨l', rfl, rfl⟩ := rep
    rw [left, more, unread_of_lt (by omega)]
    rfl

/-- A reader delivers what it has left, or nothing has been read of it. -/
theorem delivers_left (plain : Plain p.1) (started : view p.1 ≠ .fresh) :
    Delivers (fun tape l => l = contentOf tape.chunks) p (left p) := by
  refine ⟨plain, started, ?_⟩
  cases more : atEnd p.1 with
  | true =>
    rw [view_ended more]
    exact if_pos more
  | false =>
    have unused : p.1.current ≠ p.1.size := fun used => started (view_fresh more used)
    have inside := plain.inside more
    rw [left, more, unread_of_lt (by omega), view_here more (by omega)]
    exact ⟨_, rfl, rfl⟩

theorem left_fresh (plain : Plain p.1) (fresh : view p.1 = .fresh) : left p = contentOf p.2.chunks := by
  obtain ⟨more, used⟩ := fresh_used plain fresh
  rw [left, more, unread_of_eq used]
  rfl

end Left

end Reader

end Lavoro
