import Lavoro.Console.Commands
import Lavoro.Lib.Paging
import Lavoro.Net.Connect
import Lavoro.Stream.Yield

/-!
# What the console prints of a stream (`main.cpp`)

`cat` and `TCPAcceptConnection` print a stream with the same loop: the bytes are collected in
`szBuffer`, which is printed whenever 255 of them are in it, and once more at the end. The results say
what is printed of a file and of a connection, and that `szBuffer` is used within its bounds.
-/

namespace Lavoro.Console
open Lib Reader

/-- `CHAR16 szBuffer[MAX_BUFFER_SIZE]`, the units in it that count, and what has been printed. -/
structure Printer where
  szBuffer : CString.Field (0 : UInt16) maxBufferSize
  szBufferSize : Nat
  printed : Str16
  deriving Repr, DecidableEq

namespace Printer

/-- `ZeroMem(szBuffer, MAX_BUFFER_SIZE * sizeof(szBuffer[0]))`. -/
def zeroed (o : Printer) : Printer :=
  { o with szBuffer := { o.szBuffer with
      units := List.replicate maxBufferSize 0
      length_units := List.length_replicate } }

/-- `szBufferSize = 0; ZeroMem(..)`. -/
def start (szBuffer : CString.Field (0 : UInt16) maxBufferSize) : Printer :=
  zeroed ⟨szBuffer, 0, []⟩

/-- `szBuffer[szBufferSize++] = u`. -/
def put (u : UInt16) (o : Printer) : Printer :=
  { o with szBuffer := o.szBuffer.store o.szBufferSize [u], szBufferSize := o.szBufferSize + 1 }

/-- `szBuffer[szBufferSize] = 0; Print(L"%s", szBuffer); szBufferSize = 0; ZeroMem(..)`. -/
def emit (o : Printer) : Printer :=
  let szBuffer := o.szBuffer.store o.szBufferSize [0]
  zeroed ⟨szBuffer, 0, o.printed ++ szBuffer.str⟩

/-- The test for a full buffer. -/
def flushed (o : Printer) : Printer :=
  if o.szBufferSize = maxBufferSize - 1 then o.emit else o

/-- What comes behind the loop. -/
def finish (o : Printer) : Printer :=
  if o.szBufferSize ≠ 0 then o.emit else o

end Printer

variable {σ : Type}

/-- One turn of `while (!Reader.AtEnd())`. -/
def printTurn (readBuffer : ReadBuffer σ) (x : Printer × LReader × σ) :
    Turn (Printer × LReader × σ) (Printer × LReader × σ) :=
  if atEnd x.2.1 then .leave x
  else
    let c := current readBuffer (next readBuffer x.2).2
    if c.1 ≠ readerEof then
      let d := current readBuffer c.2
      .again ((x.1.put (toUnit d.1)).flushed, d.2)
    else .leave (x.1, c.2)

/-! ## What is printed of the units put -/

namespace Printer

/-- `page` has been collected, behind what has been printed. -/
structure Holds (o : Printer) (printed page : Str16) : Prop where
  printed : o.printed = printed
  used : o.szBufferSize = page.length
  short : page.length < maxBufferSize - 1
  units : o.szBuffer.units.take page.length = page
  inside : o.szBuffer.overflow = false

variable {o : Printer} {printed page : Str16}

theorem holds_start {szBuffer : CString.Field (0 : UInt16) maxBufferSize} (inside : szBuffer.overflow = false) :
    (start szBuffer).Holds [] [] :=
  ⟨rfl, rfl, by decide, rfl, inside⟩

/-- What is printed of a page is the string on it. -/
theorem emit_holds (h : o.szBufferSize = page.length) (short : page.length < maxBufferSize)
    (units : o.szBuffer.units.take page.length = page) (inside : o.szBuffer.overflow = false) :
    o.emit.Holds (o.printed ++ CString.text 0 page) [] := by
  have room : o.szBufferSize + [(0 : UInt16)].length ≤ maxBufferSize := by
    rw [h, List.length_singleton]
    exact short
  have stored : (o.szBuffer.store o.szBufferSize [0]).str = CString.text 0 page := by
    rw [CString.Field.str, CString.Field.store_units room, h, units, List.append_assoc, List.singleton_append]
    by_cases nul : (0 : UInt16) ∈ page
    · obtain ⟨behind, shape⟩ := CString.eq_text_append nul
      have clean : (0 : UInt16) ∉ CString.text 0 page := CString.nul_not_mem_text page
      rw [shape, List.append_assoc, List.cons_append, CString.text_terminated clean, CString.text_terminated clean]
    · rw [CString.text_terminated nul, CString.text_of_clean nul]
  refine ⟨?_, rfl, by decide, rfl, ?_⟩
  · show o.printed ++ (o.szBuffer.store o.szBufferSize [0]).str = _
    rw [stored]
  · exact (CString.Field.store_overflow _ _ _).2 ⟨inside, room⟩

/-- One unit more is on the page, or the page is printed. -/
theorem put_holds (h : o.Holds printed page) (u : UInt16) :
    (o.put u).flushed.Holds
      (if page.length + 1 = maxBufferSize - 1 then printed ++ CString.text 0 (page ++ [u]) else printed)
      (if page.length + 1 = maxBufferSize - 1 then [] else page ++ [u]) := by
  obtain ⟨rfl, used, short, units, inside⟩ := h
  have room : o.szBufferSize + [u].length ≤ maxBufferSize := by
    rw [used, List.length_singleton]
    exact Nat.le_trans short (by decide)
  have length : (page ++ [u]).length = page.length + 1 := by
    rw [List.length_append, List.length_singleton]
  have used' : (o.put u).szBufferSize = (page ++ [u]).length := by
    show o.szBufferSize + 1 = _
    rw [used, length]
  have units' : (o.put u).szBuffer.units.take (page ++ [u]).length = page ++ [u] := by
    show (o.szBuffer.store o.szBufferSize [u]).units.take _ = _
    rw [CString.Field.store_units room, used, units, List.take_left]
  have inside' : (o.put u).szBuffer.overflow = false :=
    (CString.Field.store_overflow _ _ _).2 ⟨inside, room⟩
  unfold flushed
  rw [used', length]
  split
  · rename_i full
    exact emit_holds used' (by rw [length]; omega) units' inside'
  · rename_i notFull
    exact ⟨rfl, used', by rw [length]; omega, units', inside'⟩

/-- What is left is printed behind the loop. -/
theorem finish_holds (h : o.Holds printed page) :
    o.finish.printed = printed ++ CString.text 0 page ∧ o.finish.szBuffer.overflow = false := by
  obtain ⟨rfl, used, short, units, inside⟩ := h
  unfold finish
  split
  · have last := emit_holds used (by omega) units inside
    exact ⟨last.printed, last.inside⟩
  · rename_i none
    have empty : page = [] := List.length_eq_zero_iff.1 (by omega)
    subst empty
    exact ⟨(List.append_nil _).symm, inside⟩

end Printer

/-- The loop ends with `out` printed, and no index is outside `szBuffer`. -/
def Prints (readBuffer : ReadBuffer σ) (x : Printer × LReader × σ) (out : Str16) : Prop :=
  ∃ o q, Loop.Leaves (printTurn readBuffer) x (o, q) ∧ o.finish.printed = out ∧
    o.finish.szBuffer.overflow = false

section Turns

variable {readBuffer : ReadBuffer σ} {p : LReader × σ} {o : Printer} {printed page out out' : Str16}

theorem Prints.unique {x : Printer × LReader × σ} (h : Prints readBuffer x out) (h' : Prints readBuffer x out') :
    out = out' := by
  obtain ⟨o, q, leaves, rfl, -⟩ := h
  obtain ⟨o', q', leaves', rfl, -⟩ := h'
  exact congrArg (fun left => left.1.finish.printed) (leaves.unique leaves')

/-- **What is printed of a stream** are its units, page by page. -/
theorem prints_yielded {bytes : List UInt8} (yields : Yields readBuffer p bytes) (h : o.Holds printed page) :
    Prints readBuffer (o, p)
      (printed ++ CString.paged 0 (maxBufferSize - 1) page (bytes.map UInt8.toUInt16)) := by
  induction bytes generalizing p o printed page with
  | nil =>
    obtain ⟨out, inside⟩ := Printer.finish_holds h
    by_cases ended : atEnd p.1 = true
    · refine ⟨o, p, (Loop.leaves_leave ?_).2 rfl, out, inside⟩
      simp [printTurn, ended]
    · refine ⟨o, (next readBuffer p).2, (Loop.leaves_leave ?_).2 rfl, out, inside⟩
      have stays : current readBuffer (next readBuffer p).2 = (readerEof, (next readBuffer p).2) :=
        current_of_atEnd yields
      simp [printTurn, ended, stays]
  | cons byte bytes ih =>
    obtain ⟨more, shown, later⟩ := yields
    have noEnd : ((byte.toNat : Int)) ≠ readerEof := by
      unfold readerEof
      omega
    have turn : printTurn readBuffer (o, p) =
        .again ((o.put byte.toUInt16).flushed, (next readBuffer p).2) := by
      simp [printTurn, more, shown, noEnd, toUnit_byte]
    obtain ⟨o', q, leaves, out, inside⟩ := ih later (Printer.put_holds h byte.toUInt16)
    refine ⟨o', q, (Loop.leaves_again turn).2 leaves, ?_, inside⟩
    rw [out, List.map_cons, CString.paged]
    split
    · rw [List.append_assoc]
    · rfl

end Turns

/-- `cat` moves its file as this loop does, whatever is in `szBuffer`. -/
theorem cat_prints {Node : Type} [DecidableEq Node] (fw : Firmware Node) (turns : Nat) (o : Printer)
    (f : LFile Node) (w : World Node) :
    Loop.after (catTurn fw) turns (f, w) =
      (Loop.after (printTurn (LFile.readBuffer fw)) turns (o, f.reader, f.handle, w)).map
        fun x => ({ f with reader := x.2.1, handle := x.2.2.1 }, x.2.2.2) := by
  let file (x : Printer × LReader × Option (Handle Node) × World Node) : LFile Node × World Node :=
    ({ f with reader := x.2.1, handle := x.2.2.1 }, x.2.2.2)
  have turn : ∀ x, catTurn fw (file x) = (printTurn (LFile.readBuffer fw) x).map file := by
    intro x
    unfold catTurn printTurn
    by_cases ended : atEnd x.2.1 = true
    · rw [if_pos ended, if_pos ended]
      rfl
    · rw [if_neg ended, if_neg ended]
      dsimp only
      rw [apply_ite (Turn.map file)]
      rfl
  exact Loop.after_map file turn turns (o, f.reader, f.handle, w)

/-! ## Files and connections -/

/-- The units of a content. -/
def unitsOf (content : List UInt8) : Str16 := content.map UInt8.toUInt16

theorem nul_mem_unitsOf (content : List UInt8) : 0 ∈ unitsOf content ↔ 0 ∈ content := by
  have same (byte : UInt8) : byte.toUInt16 = 0 ↔ byte = 0 := by
    rw [← UInt16.toNat_inj, ← UInt8.toNat_inj]
    rfl
  simp [unitsOf, same]

/-- The loop prints a content, from a new reader on a source and a cleared `szBuffer`. -/
def PrintsAll (readBuffer : ReadBuffer σ) (b : Buffer readerBufferSize)
    (szBuffer : CString.Field (0 : UInt16) maxBufferSize) (s : σ) (content : List UInt8) : Prop :=
  Prints readBuffer (.start szBuffer, construct b, s) (unitsOf content)

section Sources

variable {readBuffer : ReadBuffer σ} {s : σ} {b : Buffer readerBufferSize}
variable {szBuffer : CString.Field (0 : UInt16) maxBufferSize}

/-- What is printed of a source that hands out chunks. -/
theorem prints_served {chunks : List Reported} (b : Buffer readerBufferSize) (serves : Serves readBuffer s chunks)
    (inside : szBuffer.overflow = false) :
    Prints readBuffer (.start szBuffer, construct b, s)
      (CString.paged 0 (maxBufferSize - 1) [] (unitsOf (handed b chunks))) := by
  have binary : Binary (construct b) := ⟨rfl, Nat.zero_lt_succ 127⟩
  have yields := serves_yields serves binary rfl
  exact prints_yielded yields (Printer.holds_start inside)

/-- The content is printed exactly if that is what the pages come to. -/
theorem printsAll_iff {chunks : List Reported} (serves : Serves readBuffer s chunks)
    (inside : szBuffer.overflow = false) (content : List UInt8) :
    PrintsAll readBuffer b szBuffer s content ↔
      CString.paged 0 (maxBufferSize - 1) [] (unitsOf (handed b chunks)) = unitsOf content := by
  have printed := prints_served b serves inside
  constructor
  · exact printed.unique
  · intro same
    rwa [same] at printed

/-- Without a NUL in it what is handed out is printed. -/
theorem printsAll_handed {chunks : List Reported} (serves : Serves readBuffer s chunks)
    (inside : szBuffer.overflow = false) (clean : 0 ∉ handed b chunks) :
    PrintsAll readBuffer b szBuffer s (handed b chunks) :=
  (printsAll_iff serves inside _).2
    (CString.paged_clean (fun nul => clean ((nul_mem_unitsOf _).1 nul)) (by decide))

end Sources

section Connections

open Net

/-- The buffer of a reader that has received these segments. -/
def received (b : Buffer readerBufferSize) (segments : List Arrival) : Buffer readerBufferSize :=
  segments.foldl (fun b a => b.store a.data) b

/-- The bytes that a connection adds at its end: those left in the buffer, if the request itself
reports the end. -/
def leftOver (b : Buffer readerBufferSize) (f : Feed) : List UInt8 :=
  match f.ending with
  | .fin => (List.range (readerBufferSize - 32)).map (received b f.segments).get
  | _ => []

theorem handed_feed (b : Buffer readerBufferSize) (f : Feed) :
    handed b f.chunks = f.stream ++ leftOver b f := by
  obtain ⟨segments, ending⟩ := f
  unfold Feed.chunks Feed.stream leftOver
  simp only
  induction segments generalizing b with
  | nil => cases ending <;> simp [handed, received]
  | cons a segments ih =>
    have room : a.data.length ≤ readerBufferSize := Nat.le_trans a.fits (by decide)
    rw [List.map_cons, List.cons_append, handed_stored b _ room, ih]
    simp [received]

/-- The first byte in the buffer is that of the last segment. -/
theorem received_first {b : Buffer readerBufferSize} {segments : List Arrival}
    (clean : 0 ∉ (segments.map Arrival.data).flatten) (some : segments ≠ []) :
    (received b segments).get 0 ≠ 0 := by
  rcases List.eq_nil_or_concat segments with rfl | ⟨segments, a, rfl⟩
  · exact absurd rfl some
  · rw [List.concat_eq_append] at clean ⊢
    have length : 0 < a.data.length := List.length_pos_iff.2 a.some
    have room : a.data.length ≤ readerBufferSize := Nat.le_trans a.fits (by decide)
    have first : (received b (segments ++ [a])).get 0 = a.data[0] := by
      rw [received, List.foldl_append]
      exact Buffer.get_store_of_lt length room
    rw [first]
    intro nul
    apply clean
    rw [List.map_append, List.flatten_append, List.map_singleton, List.flatten_singleton, ← nul]
    exact List.mem_append_right _ (List.getElem_mem length)

/-- No byte is left over at the end. -/
theorem leftOver_nothing_iff {b : Buffer readerBufferSize} {f : Feed} (clean : 0 ∉ f.stream) :
    CString.paged 0 (maxBufferSize - 1) [] (unitsOf (f.stream ++ leftOver b f)) = unitsOf f.stream ↔
      (f.ending = .fin → f.segments = [] ∧ b.get 0 = 0) := by
  have set : (0 : UInt16) ∉ unitsOf f.stream := fun nul => clean ((nul_mem_unitsOf _).1 nul)
  by_cases fin : f.ending = .fin
  · obtain ⟨k, size⟩ : ∃ k, readerBufferSize - 32 = k + 1 := ⟨95, rfl⟩
    have left : leftOver b f =
        (received b f.segments).get 0 :: (List.range' 1 k).map (received b f.segments).get := by
      rw [leftOver, fin]
      simp only
      rw [size, List.range_eq_range', List.range'_succ, List.map_cons]
    have units : unitsOf (f.stream ++ leftOver b f) = unitsOf f.stream ++
        (((received b f.segments).get 0).toUInt16 ::
          unitsOf ((List.range' 1 k).map (received b f.segments).get)) := by
      rw [left, unitsOf, List.map_append, List.map_cons]
      rfl
    rw [units]
    by_cases nul : (received b f.segments).get 0 = 0
    · have none : f.segments = [] := Classical.byContradiction fun some => received_first clean some nul
      have empty : f.stream = [] := by simp [Feed.stream, none]
      have first : b.get 0 = 0 := by
        rw [none] at nul
        exact nul
      have nothing : CString.paged (0 : UInt16) (maxBufferSize - 1) []
          ((0 : UInt8).toUInt16 :: unitsOf ((List.range' 1 k).map (received b f.segments).get)) = [] := by
        rw [CString.paged, if_neg (by decide)]
        apply CString.paged_nul rfl
        have small : k = 95 := by
          have length : readerBufferSize - 32 = 96 := rfl
          omega
        rw [unitsOf, List.length_map, List.length_map, List.length_range', small]
        decide
      rw [empty, nul]
      exact iff_of_true nothing fun _ => ⟨none, first⟩
    · have byte : ((received b f.segments).get 0).toUInt16 ≠ 0 := by
        intro zero
        apply nul
        rw [← UInt8.toNat_inj, ← UInt8.toNat_toUInt16, zero]
        rfl
      refine iff_of_false (CString.paged_behind _ set (by decide) byte) fun harmless => ?_
      obtain ⟨none, first⟩ := harmless fin
      rw [none] at nul
      exact nul first
  · have none : leftOver b f = [] := by
      unfold leftOver
      split
      · rename_i is
        exact absurd is fin
      · rfl
    rw [none, List.append_nil]
    exact iff_of_true (CString.paged_clean set (by decide)) fun is => absurd is fin

end Connections

/-- **What `cat` and an accepted connection print.** A file is printed as it is, whatever its chunks. A
connection is, exactly if its end is not reported by the request itself, or nothing has arrived before
and the buffer begins with a NUL. In every case the loop ends and `szBuffer` is used within its bounds. -/
theorem stream_printed_iff (szBuffer : CString.Field (0 : UInt16) maxBufferSize) (b : Buffer readerBufferSize)
    (inside : szBuffer.overflow = false) :
    (∀ tape : Tape, 0 ∉ contentOf tape.chunks →
      PrintsAll (fileReadBuffer readTape) b szBuffer tape (contentOf tape.chunks)) ∧
    (∀ f : Net.Feed, 0 ∉ f.stream →
      (PrintsAll Net.readBuffer b szBuffer f.connection f.stream ↔
        (f.ending = .fin → f.segments = [] ∧ b.get 0 = 0))) ∧
    ∀ f : Net.Feed, ∃ out, Prints Net.readBuffer (.start szBuffer, construct b, f.connection) out := by
  refine ⟨fun tape clean => ?_, fun f clean => ?_, fun f => ⟨_, prints_served b (Net.feed_serves f) inside⟩⟩
  · have serves := tape_serves tape.chunks tape rfl
    rw [← handed_reported b] at clean ⊢
    exact printsAll_handed serves inside clean
  · rw [printsAll_iff (Net.feed_serves f) inside, handed_feed]
    exact leftOver_nothing_iff clean

/-- `szBuffer` as it is in a program that has just been started. -/
def freshLine : CString.Field (0 : UInt16) maxBufferSize :=
  ⟨List.replicate maxBufferSize 0, List.length_replicate, false⟩

/-- One byte arrives, and the peer closes the connection. -/
def oneByte : Net.Feed := ⟨[Net.atOnce 1 [] Net.one_byte_fits], .fin⟩

/-- The byte that is left over is printed once more. -/
theorem byte_printed_twice :
    Prints Net.readBuffer (.start freshLine, construct fun _ => 0, oneByte.connection) [1, 1] ∧
      ¬ PrintsAll Net.readBuffer (fun _ => 0) freshLine oneByte.connection oneByte.stream := by
  have inside : freshLine.overflow = false := rfl
  have printed := prints_served (fun _ => 0) (Net.feed_serves oneByte) inside
  have pages : CString.paged 0 (maxBufferSize - 1) [] (unitsOf (handed (fun _ => 0) oneByte.chunks)) = [1, 1] := by
    decide +kernel
  rw [pages] at printed
  refine ⟨printed, fun once => ?_⟩
  have same : [1, 1] = unitsOf oneByte.stream := printed.unique once
  exact absurd same (by decide)

/-- A file of two chunks. -/
theorem file_printed :
    PrintsAll (fileReadBuffer readTape) (fun _ => 0) freshLine
      (.ending [⟨[1, 2], by decide, by decide⟩, ⟨[3], by decide, by decide⟩]) [1, 2, 3] :=
  (stream_printed_iff freshLine (fun _ => 0) rfl).1
    (.ending [⟨[1, 2], by decide, by decide⟩, ⟨[3], by decide, by decide⟩]) (by decide)

end Lavoro.Console
