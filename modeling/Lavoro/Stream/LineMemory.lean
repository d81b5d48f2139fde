import Lavoro.Stream.Lines

/-!
# `ReadLine` and the memory of its caller

`ReadLine(Buffer)` has no bound: it stores the units of a line from `Buffer` on, looks at the unit in
front of the cursor and stores a NUL at it. `LineMemory` is the memory it works on, by the distance
from `Buffer`, and keeps what has been touched. The line is stored as it should be within the
`MAX_PATH` units of the callers' buffers exactly if it has a byte and fits (`FitsLine`): of an empty
line the unit in front of the buffer is looked at, and a reader that has found its stream empty only
now stores what `Current()` returns at the end.
-/

namespace Lavoro
open Lib

/-- `MAX_PATH`, the size of the buffers that lines are read into. -/
def lineRoom : Nat := 256

/-- The memory around `Buffer`, the cursor `CharBuffer` and the units read or written so far. -/
structure LineMemory where
  unit : Int → UInt16
  cursor : Int
  touched : List Int

namespace LineMemory

def start (memory : Int → UInt16) : LineMemory := ⟨memory, 0, []⟩

/-- `*CharBuffer = u`. -/
def store (m : LineMemory) (u : UInt16) : LineMemory :=
  { m with unit := fun i => if i = m.cursor then u else m.unit i, touched := m.touched ++ [m.cursor] }

/-- `++CharBuffer`. -/
def advance (m : LineMemory) : LineMemory := { m with cursor := m.cursor + 1 }

/-- Behind the loop: a carriage return in front of the cursor is taken back, and a NUL stored. -/
def terminate (m : LineMemory) : LineMemory :=
  let looked := { m with touched := m.touched ++ [m.cursor - 1] }
  if m.unit (m.cursor - 1) = 13 then store { looked with cursor := m.cursor - 1 } 0 else looked.store 0

/-- `CharBuffer - Buffer`, as an `unsigned`. -/
def returned (m : LineMemory) : Nat := (m.cursor % 4294967296).toNat

end LineMemory

namespace Reader

variable {σ : Type}

/-- One turn of the loop of `ReadLine(Buffer)`. -/
def lineTurn (readBuffer : ReadBuffer σ) (x : LineMemory × LReader × σ) :
    Turn (LineMemory × LReader × σ) (LineMemory × LReader × σ) :=
  if atEnd x.2.1 then .leave x
  else
    let c := current readBuffer x.2
    if c.1 = 10 then .leave (x.1, (next readBuffer c.2).2)
    else
      let d := current readBuffer c.2
      .again ((x.1.store (toUnit d.1)).advance, (next readBuffer d.2).2)

/-- `ReadLine(Buffer)`. -/
def readLineAt (readBuffer : ReadBuffer σ) (turns : Nat) (memory : Int → UInt16) (p : LReader × σ) :
    Turn (LineMemory × LReader × σ) (LineMemory × LReader × σ) :=
  (Loop.after (lineTurn readBuffer) turns (LineMemory.start memory, p)).andThen fun x => (x.1.terminate, x.2)

end Reader

/-! ## What is stored -/

namespace LineMemory

/-- The memory with units stored from `Buffer` on. -/
def written (memory : Int → UInt16) (stored : Str16) (i : Int) : UInt16 :=
  if 0 ≤ i ∧ i < stored.length then stored.getD i.toNat 0 else memory i

/-- The state of the loop when it has stored these units. -/
def holding (memory : Int → UInt16) (stored : Str16) : LineMemory :=
  ⟨written memory stored, stored.length, (List.range stored.length).map Int.ofNat⟩

variable {memory : Int → UInt16} {stored : Str16}

theorem holding_nil (memory : Int → UInt16) : holding memory [] = start memory := by
  have nothing : written memory [] = memory := by
    funext i
    refine if_neg fun inside => ?_
    have short : i < (0 : Nat) := inside.2
    omega
  rw [holding, nothing]
  rfl

theorem written_of_lt {i : Nat} (h : i < stored.length) : written memory stored i = stored[i] := by
  have inside : 0 ≤ (i : Int) ∧ (i : Int) < stored.length := ⟨Int.natCast_nonneg i, Int.ofNat_lt.2 h⟩
  rw [written, if_pos inside, Int.toNat_natCast, List.getD_eq_getElem?_getD, List.getElem?_eq_getElem h]
  rfl

/-- One more unit. -/
theorem holding_snoc (memory : Int → UInt16) (stored : Str16) (u : UInt16) :
    ((holding memory stored).store u).advance = holding memory (stored ++ [u]) := by
  have units : (fun i : Int => if i = stored.length then u else written memory stored i) =
      written memory (stored ++ [u]) := by
    funext i
    by_cases here : i = stored.length
    · have inside : stored.length < (stored ++ [u]).length := by
        rw [List.length_append]; exact Nat.lt_succ_self _
      rw [if_pos here, here, written_of_lt inside]
      simp
    · rw [if_neg here]
      by_cases inside : 0 ≤ i ∧ i < stored.length
      · obtain ⟨n, rfl⟩ := Int.eq_ofNat_of_zero_le inside.1
        have lt : n < stored.length := Int.ofNat_lt.1 inside.2
        have longer : n < (stored ++ [u]).length := by
          rw [List.length_append]; omega
        rw [written_of_lt lt, written_of_lt longer, List.getElem_append_left lt]
      · have outside : ¬ (0 ≤ i ∧ i < ((stored ++ [u]).length : Nat)) := by
          rw [List.length_append, List.length_singleton]
          omega
        rw [written, written, if_neg inside, if_neg outside]
  have touched : (List.range stored.length).map Int.ofNat ++ [(stored.length : Int)] =
      (List.range (stored ++ [u]).length).map Int.ofNat := by
    rw [List.length_append, List.length_singleton, List.range_succ, List.map_append]
    rfl
  have cursor : (stored.length : Int) + 1 = ((stored ++ [u]).length : Nat) := by simp
  exact LineMemory.mk.injEq .. ▸ ⟨units, cursor, touched⟩

end LineMemory

namespace Reader

variable {σ : Type} {readBuffer : ReadBuffer σ}

/-- The loop stores the units that it takes off the reader. -/
theorem lineTurn_holding (readBuffer : ReadBuffer σ) (memory : Int → UInt16) (y : Str16 × LReader × σ) :
    lineTurn readBuffer (LineMemory.holding memory y.1, y.2) =
      (readLineTurn readBuffer y).map fun z => (LineMemory.holding memory z.1, z.2) := by
  unfold lineTurn readLineTurn
  by_cases ended : atEnd y.2.1 = true
  · rw [if_pos ended, if_pos ended]
    rfl
  · rw [if_neg ended, if_neg ended]
    by_cases feed : (current readBuffer y.2).1 = 10
    · simp only [feed, if_true]
      rfl
    · simp only [feed, if_false, LineMemory.holding_snoc]
      rfl

/-- **What `ReadLine(Buffer)` leaves in memory** are the units of the line, terminated. -/
theorem readLineAt_eq (readBuffer : ReadBuffer σ) (turns : Nat) (memory : Int → UInt16) (p : LReader × σ) :
    readLineAt readBuffer turns memory p =
      ((readLine readBuffer turns p).map fun z => (LineMemory.holding memory z.1, z.2)).andThen fun x =>
        (x.1.terminate, x.2) := by
  have loops := Loop.after_map (fun z : Str16 × LReader × σ => (LineMemory.holding memory z.1, z.2))
    (lineTurn_holding readBuffer memory) turns ([], p)
  rw [LineMemory.holding_nil] at loops
  rw [readLineAt, loops]
  rfl

theorem readLineAt_leave_iff {turns : Nat} {memory : Int → UInt16} {p q : LReader × σ} {m : LineMemory} :
    readLineAt readBuffer turns memory p = .leave (m, q) ↔
      ∃ stored, readLine readBuffer turns p = .leave (stored, q) ∧
        m = (LineMemory.holding memory stored).terminate := by
  rw [readLineAt_eq]
  cases readLine readBuffer turns p with
  | again x => exact ⟨fun h => (by cases h), fun ⟨_, h, _⟩ => (by cases h)⟩
  | leave x =>
    obtain ⟨stored, q'⟩ := x
    constructor
    · intro h
      cases h
      exact ⟨stored, rfl, rfl⟩
    · rintro ⟨stored', h, rfl⟩
      cases h
      rfl

end Reader

/-! ## The line in its buffer -/

/-- The line is in the buffer, terminated, its length is returned and nothing else is touched. -/
structure StoresLine (line : List UInt8) (m : LineMemory) : Prop where
  inside : ∀ i ∈ m.touched, 0 ≤ i ∧ i < lineRoom
  text : ∀ i (h : i < (lineText line).length), m.unit i = (lineText line)[i]
  nul : m.unit (lineText line).length = 0
  returned : m.returned = (lineText line).length

/-- A line that has a byte and fits into the buffer, with its NUL in the place of a carriage return. -/
def FitsLine (line : List UInt8) : Prop :=
  line ≠ [] ∧ (line.length < lineRoom ∨ line.length = lineRoom ∧ line.getLast? = some 13)

namespace LineMemory

variable {memory : Int → UInt16} {stored : Str16}

/-- Of an empty line the unit in front of the buffer is looked at. -/
theorem terminate_empty : (-1 : Int) ∈ (holding memory []).terminate.touched := by
  unfold terminate
  split <;> simp [store, holding]

/-- The unit in front of the cursor is the last one of the line. -/
theorem written_last (some' : stored ≠ []) :
    written memory stored ((stored.length : Int) - 1) = stored.getLast some' := by
  have pos := List.length_pos_iff.2 some'
  have place : (stored.length : Int) - 1 = ((stored.length - 1 : Nat) : Int) := by omega
  rw [place, written_of_lt (by omega), List.getLast_eq_getElem]

/-- The memory with units stored from `Buffer` on and the NUL put at `n`. -/
def endedAt (memory : Int → UInt16) (stored : Str16) (n : Int) : LineMemory :=
  ⟨fun i => if i = n then 0 else written memory stored i, n,
    (List.range stored.length).map Int.ofNat ++ [(stored.length : Int) - 1] ++ [n]⟩

/-- A line that ends in a carriage return. -/
theorem terminate_return (some' : stored ≠ []) (last : stored.getLast some' = 13) :
    (holding memory stored).terminate = endedAt memory stored ((stored.length : Int) - 1) := by
  have looked : (holding memory stored).unit ((holding memory stored).cursor - 1) = 13 :=
    (written_last some').trans last
  rw [terminate, if_pos looked]
  rfl

theorem terminate_other (some' : stored ≠ []) (last : stored.getLast some' ≠ 13) :
    (holding memory stored).terminate = endedAt memory stored stored.length := by
  have looked : (holding memory stored).unit ((holding memory stored).cursor - 1) ≠ 13 :=
    fun eq => last ((written_last some').symm.trans eq)
  rw [terminate, if_neg looked]
  rfl

/-- The units from `Buffer` on that the loop has touched. -/
theorem mem_touched {n : Nat} {i : Int} (h : i ∈ (List.range n).map Int.ofNat) : 0 ≤ i ∧ i < n := by
  obtain ⟨k, inside, rfl⟩ := List.mem_map.1 h
  exact ⟨Int.natCast_nonneg k, Int.ofNat_lt.2 (List.mem_range.1 inside)⟩

theorem returned_small {m : LineMemory} {n : Nat} (cursor : m.cursor = n) (small : n < lineRoom) :
    m.returned = n := by
  unfold lineRoom at small
  unfold returned
  omega

end LineMemory

theorem getLast?_units (line : List UInt8) :
    (line.map UInt8.toUInt16).getLast? = some 13 ↔ line.getLast? = some 13 := by
  rw [List.getLast?_map, Option.map_eq_some_iff]
  constructor
  · rintro ⟨b, last, unit⟩
    rw [last]
    have value : b.toNat = 13 := (UInt8.toNat_toUInt16 b).symm.trans (congrArg UInt16.toNat unit)
    exact congrArg some (UInt8.toNat_inj.1 value)
  · intro last
    exact ⟨13, last, rfl⟩

section Stored

variable {memory : Int → UInt16} {line : List UInt8}

/-- A text of `n` units needs one more for its NUL, and a carriage return behind it has the same place. -/
theorem storesLine_endedAt (memory : Int → UInt16) {n : Nat} (pos : 0 < line.length)
    (low : line.length ≤ n + 1) (high : n ≤ line.length)
    (text : lineText line = (line.map UInt8.toUInt16).take n) :
    StoresLine line (LineMemory.endedAt memory (line.map UInt8.toUInt16) n) ↔ n < lineRoom := by
  have units : (line.map UInt8.toUInt16).length = line.length := List.length_map _
  have length : (lineText line).length = n := by
    rw [text, List.length_take, units, Nat.min_eq_left high]
  constructor
  · intro h
    exact Int.ofNat_lt.1 (h.inside n (List.mem_append_right _ (List.mem_singleton.2 rfl))).2
  · intro fits
    refine ⟨?_, ?_, ?_, ?_⟩
    · intro i touched
      rw [LineMemory.endedAt, units, List.append_assoc] at touched
      rcases List.mem_append.1 touched with stored | end'
      · have bound := LineMemory.mem_touched stored
        omega
      · have place : i = (line.length : Int) - 1 ∨ i = n := by simpa using end'
        omega
    · intro i h
      have lt : i < (line.map UInt8.toUInt16).length := by omega
      have other : (i : Int) ≠ n := by omega
      simp only [LineMemory.endedAt, if_neg other, LineMemory.written_of_lt lt, text, List.getElem_take]
    · rw [length]
      exact if_pos rfl
    · rw [length]
      exact LineMemory.returned_small rfl fits

/-- A line that ends in a carriage return needs as many units as it has bytes. -/
theorem storesLine_return (last : line.getLast? = some 13) :
    StoresLine line (LineMemory.holding memory (line.map UInt8.toUInt16)).terminate ↔
      line.length ≤ lineRoom := by
  have units := (getLast?_units line).2 last
  have byte : line ≠ [] := by
    intro empty
    rw [empty] at last
    cases last
  have pos := List.length_pos_iff.2 byte
  have some' : line.map UInt8.toUInt16 ≠ [] := fun empty => byte (List.map_eq_nil_iff.1 empty)
  have final := (List.getLast_eq_iff_getLast?_eq_some some').2 units
  have text : lineText line = (line.map UInt8.toUInt16).take (line.length - 1) := by
    rw [← List.length_map UInt8.toUInt16, ← List.dropLast_eq_take]
    exact if_pos units
  have stores := storesLine_endedAt memory pos (by omega) (Nat.sub_le _ 1) text
  rw [Int.ofNat_sub pos] at stores
  rw [LineMemory.terminate_return some' final, List.length_map]
  apply Iff.trans stores
  omega

/-- Another line needs a unit more, for its NUL. -/
theorem storesLine_other (byte : line ≠ []) (last : line.getLast? ≠ some 13) :
    StoresLine line (LineMemory.holding memory (line.map UInt8.toUInt16)).terminate ↔
      line.length < lineRoom := by
  have units : (line.map UInt8.toUInt16).getLast? ≠ some 13 := fun eq => last ((getLast?_units line).1 eq)
  have some' : line.map UInt8.toUInt16 ≠ [] := fun empty => byte (List.map_eq_nil_iff.1 empty)
  have final := mt (List.getLast_eq_iff_getLast?_eq_some some').1 units
  have text : lineText line = (line.map UInt8.toUInt16).take line.length := by
    rw [List.take_of_length_le (Nat.le_of_eq (List.length_map _))]
    exact if_neg units
  have stores := storesLine_endedAt memory (List.length_pos_iff.2 byte) (Nat.le_succ _) (Nat.le_refl _) text
  rw [LineMemory.terminate_other some' final, List.length_map, stores]

/-- **A line is in its buffer exactly if it has a byte and fits.** -/
theorem storesLine_iff (memory : Int → UInt16) :
    StoresLine line (LineMemory.holding memory (line.map UInt8.toUInt16)).terminate ↔ FitsLine line := by
  by_cases empty : line = []
  · subst empty
    refine iff_of_false (fun h => ?_) (fun fits => fits.1 rfl)
    have before := (h.inside (-1) LineMemory.terminate_empty).1
    omega
  · by_cases last : line.getLast? = some 13
    · rw [storesLine_return last]
      refine ⟨fun fits => ⟨empty, ?_⟩, fun fits => ?_⟩
      · rcases Nat.lt_or_eq_of_le fits with lt | eq
        · exact .inl lt
        · exact .inr ⟨eq, last⟩
      · exact fits.2.elim Nat.le_of_lt (fun full => Nat.le_of_eq full.1)
    · rw [storesLine_other empty last]
      exact ⟨fun fits => ⟨empty, .inl fits⟩, fun fits => fits.2.elim id (fun full => absurd full.2 last)⟩

end Stored

/-! ## The reader -/

namespace Reader

variable {σ : Type} {readBuffer : ReadBuffer σ}

theorem readLine_unique {turns turns' : Nat} {p : LReader × σ} {x y : Str16 × LReader × σ}
    (hx : readLine readBuffer turns p = .leave x) (hy : readLine readBuffer turns' p = .leave y) : x = y :=
  Loop.Leaves.unique ⟨turns, Loop.after_eq_leave_iff.1 hx⟩ ⟨turns', Loop.after_eq_leave_iff.1 hy⟩

/-- A reader that finds its stream empty in `ReadLine` stores what `Current()` returns at the end, unless
its buffer has a line feed where `Current()` looked first. -/
theorem readLine_exhausted {p : LReader × σ} (more : atEnd p.1 = false)
    (ended : atEnd (current readBuffer p).2.1 = true) :
    readLine readBuffer 2 p =
      .leave (if (current readBuffer p).1 = 10 then [] else [65535], (current readBuffer p).2) := by
  have stays : next readBuffer (current readBuffer p).2 = (readerEof, (current readBuffer p).2) :=
    next_of_atEnd ended
  have shown : current readBuffer (current readBuffer p).2 = (readerEof, (current readBuffer p).2) :=
    current_of_atEnd ended
  by_cases feed : (current readBuffer p).1 = 10
  · have turn : readLineTurn readBuffer ([], p) = .leave ([], (current readBuffer p).2) := by
      simp [readLineTurn, more, feed, stays]
    rw [readLine, Loop.after_leave turn, if_pos feed]
  · have turn : readLineTurn readBuffer ([], p) = .again ([65535], (current readBuffer p).2) := by
      simp only [readLineTurn, more, Bool.false_eq_true, if_false, feed, shown, stays]
      rfl
    have stop : readLineTurn readBuffer ([65535], (current readBuffer p).2) =
        .leave ([65535], (current readBuffer p).2) := if_pos ended
    rw [readLine, Loop.after_again turn, Loop.after_leave stop, if_neg feed]

/-- `ReadLine(Buffer)` ends, has stored the next line as it should, and leaves the reader behind it. -/
def ReadsLine (memory : Int → UInt16) (p : LReader × Tape) : Prop :=
  ∃ turns m q, readLineAt (fileReadBuffer readTape) turns memory p = .leave (m, q) ∧
    StoresLine (firstLine (left p)) m ∧ left q = restOf (left p) ∧
    (atEnd q.1 = true ↔ restOf (left p) = [])

variable {p : LReader × Tape}

theorem ready_left (plain : Plain p.1) (some' : view p.1 = .fresh → left p ≠ []) :
    Ready (fun tape l => l = contentOf tape.chunks) p (left p) := by
  by_cases fresh : view p.1 = .fresh
  · exact .fresh plain fresh (left_fresh plain fresh) (some' fresh)
  · exact .started (delivers_left plain fresh)

/-- The first `Current()` on an empty stream finds its end. -/
theorem current_exhausted (plain : Plain p.1) (fresh : view p.1 = .fresh) (empty : left p = []) :
    atEnd (current (fileReadBuffer readTape) p).2.1 = true := by
  have delivers := delivers_fresh (fileReadBuffer_refills readTape_fits) readTape_supplies plain fresh
    (left_fresh plain fresh)
  rw [← current_primes plain fresh] at delivers
  exact (atEnd_delivers delivers).2 empty

/-- **`ReadLine` from any position**: it does what it should exactly if the line has a byte and fits. -/
theorem readsLine_of_plain (memory : Int → UInt16) (plain : Plain p.1) :
    ReadsLine memory p ↔ FitsLine (firstLine (left p)) := by
  have refills := fileReadBuffer_refills readTape_fits
  by_cases exhausted : view p.1 = .fresh ∧ left p = []
  · -- nothing has been read, and there is nothing: what is stored is no line
    obtain ⟨fresh, empty⟩ := exhausted
    have line : firstLine (left p) = [] := by rw [empty]; rfl
    have stored := readLine_exhausted (fresh_used plain fresh).1 (current_exhausted plain fresh empty)
    rw [ReadsLine, line]
    refine iff_of_false ?_ (fun fits => fits.1 rfl)
    rintro ⟨turns, m, q, run, stores, -⟩
    obtain ⟨units, loop, rfl⟩ := readLineAt_leave_iff.1 run
    obtain ⟨rfl, -⟩ := Prod.mk.inj (readLine_unique loop stored)
    by_cases feed : (current (fileReadBuffer readTape) p).1 = 10
    · rw [if_pos feed] at stores
      have before := (stores.inside (-1) LineMemory.terminate_empty).1
      omega
    · rw [if_neg feed, LineMemory.terminate_other (by simp) (by decide)] at stores
      have nul : LineMemory.written memory [65535] 0 = 0 := stores.nul
      rw [show (0 : Int) = ((0 : Nat) : Int) from rfl, LineMemory.written_of_lt (by simp)] at nul
      exact absurd nul (by decide)
  · obtain ⟨turns, q, loop, delivers⟩ := readLine_ready refills readTape_supplies
      (ready_left plain fun fresh empty => exhausted ⟨fresh, empty⟩)
    rw [← storesLine_iff memory]
    constructor
    · rintro ⟨turns', m, q', run, stores, -⟩
      obtain ⟨units, loop', rfl⟩ := readLineAt_leave_iff.1 run
      obtain ⟨rfl, -⟩ := Prod.mk.inj (readLine_unique loop' loop)
      exact stores
    · intro stores
      exact ⟨turns, _, q, readLineAt_leave_iff.2 ⟨_, loop, rfl⟩, stores, left_delivers delivers,
        atEnd_delivers delivers⟩

/-- **`ReadLine` is correct and stays in its buffer** exactly if the next line has a byte and fits into
the buffer, whatever has been read before and whatever is in memory. -/
theorem readsLine_iff (tape : Tape) (buffer : Buffer readerBufferSize) (history : List Request)
    (memory : Int → UInt16) :
    ReadsLine memory (requests (fileReadBuffer readTape) history (construct buffer, tape)) ↔
      FitsLine (firstLine (left (requests (fileReadBuffer readTape) history (construct buffer, tape)))) :=
  readsLine_of_plain memory (plain_requests (fileReadBuffer_refills readTape_fits) history
    (plain_construct buffer))

/-- The stream of one empty line. -/
def emptyLine : Tape := .ending [⟨[10], List.cons_ne_nil _ _, by decide⟩]

/-- On an empty line `ReadLine` looks in front of its buffer. -/
theorem emptyLine_not_read :
    ¬ ReadsLine (fun _ => 13) (requests (fileReadBuffer readTape) [.next] (construct fun _ => 0, emptyLine)) := by
  have plain := plain_requests (fileReadBuffer_refills readTape_fits) [.next] (plain_construct fun _ => 0)
    (p := (construct fun _ => 0, emptyLine))
  have line : firstLine (left (requests (fileReadBuffer readTape) [.next] (construct fun _ => 0, emptyLine))) = [] := by
    decide
  rw [readsLine_of_plain _ plain, line]
  exact fun fits => fits.1 rfl

end Reader

end Lavoro
