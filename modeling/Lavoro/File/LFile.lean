import Lavoro.File.System
import Lavoro.Stream.Writer

/-!
# Files (`lfile.hpp`, `lfile.cpp`)

An `LFile` is a handle, which is NULL when opening failed, with a buffered reader and
a buffered writer on it. The operations below are the members of `LFile` and of its
reader and writer, each on the file and the world it lives in.
-/

namespace Lavoro
open Lib

variable {Node : Type} [DecidableEq Node]

/-- `const UINT64 InvalidPosition`. -/
def invalidPosition : Nat := 18446744073709551615

structure LFile (Node : Type) where
  reader : LReader
  writer : LWriter
  handle : Option (Handle Node)

namespace LFile

/-- `LFile::LFile(Path, NULL, Mode, Attributes)`. -/
def construct (fw : Firmware Node) (path : Str16) (create : Bool) (w : World Node) :
    LFile Node × World Node :=
  let opened := if path.length > 0 then Efi.openFile fw path create w else (none, w)
  ({ reader := Reader.construct (fw.heap w.opens), writer := Writer.empty, handle := opened.1 },
    opened.2)

/-- `LFileReader::ReadBuffer()`. -/
def readBuffer (fw : Firmware Node) : ReadBuffer (Option (Handle Node) × World Node) :=
  Reader.fileReadBuffer (Efi.read fw)

/-- `LFileWriter::WriteBuffer()`. -/
def writeBuffer (fw : Firmware Node) : WriteBuffer (Option (Handle Node) × World Node) :=
  Writer.sendPending (Efi.write fw)

/-- A member of the reader, on the file. -/
def onReader (f : LFile Node) (p : LReader × Option (Handle Node) × World Node) :
    LFile Node × World Node :=
  ({ f with reader := p.1, handle := p.2.1 }, p.2.2)

/-- A member of the writer, on the file. -/
def onWriter (f : LFile Node) (p : LWriter × Option (Handle Node) × World Node) :
    LFile Node × World Node :=
  ({ f with writer := p.1, handle := p.2.1 }, p.2.2)

/-- `Reader.Next()`. -/
def next (fw : Firmware Node) (s : LFile Node × World Node) : LFile Node × World Node :=
  s.1.onReader (Reader.next (readBuffer fw) (s.1.reader, s.1.handle, s.2)).2

/-- `Reader.Current()`. -/
def current (fw : Firmware Node) (s : LFile Node × World Node) : Int × LFile Node × World Node :=
  let x := Reader.current (readBuffer fw) (s.1.reader, s.1.handle, s.2)
  (x.1, s.1.onReader x.2)

/-- `Reader.Read(Buffer, BufferSize)`: the bytes stored. -/
def read (fw : Firmware Node) (n : Nat) (s : LFile Node × World Node) :
    List UInt8 × LFile Node × World Node :=
  let x := Reader.read (readBuffer fw) n (s.1.reader, s.1.handle, s.2)
  (x.1, s.1.onReader x.2)

/-- `Writer.Write(ch)`. -/
def write (fw : Firmware Node) (ch : UInt8) (s : LFile Node × World Node) : LFile Node × World Node :=
  s.1.onWriter (Writer.write (writeBuffer fw) ch (s.1.writer, s.1.handle, s.2))

/-- `Writer.Flush()`. -/
def flush (fw : Firmware Node) (s : LFile Node × World Node) : LFile Node × World Node :=
  s.1.onWriter (Writer.flush (writeBuffer fw) (s.1.writer, s.1.handle, s.2))

/-- `LFile::Delete()`: the handle is forgotten once the file is gone. -/
def delete (fw : Firmware Node) (s : LFile Node × World Node) : LFile Node × World Node :=
  match s.1.handle with
  | none => s
  | some h =>
    let gone := Efi.delete fw h s.2
    ({ s.1 with handle := if gone.1 then none else some h }, gone.2)

/-- `LFile::Position()`; `status` is what `Handle->GetPosition` reports. -/
def position (status : EfiStatus) (f : LFile Node) : Nat :=
  match f.handle with
  | none => invalidPosition
  | some h => if efiError status then invalidPosition else h.position

/-- `LFile::SetPosition(_Position)`. -/
def setPosition (fw : Firmware Node) (position : Nat) (s : LFile Node × World Node) :
    LFile Node × World Node :=
  let s := flush fw ({ s.1 with reader := Reader.reset s.1.reader }, s.2)
  let f := { s.1 with writer := Writer.reset s.1.writer }
  match f.handle with
  | none => (f, s.2)
  | some h =>
    let moved := Efi.setPosition fw position h s.2
    ({ f with handle := some moved.1 }, moved.2)

/-- `LFile::~LFile()`: `Close` ends the handle and leaves every file as it is, and the
`Flush()` of `~LWriter` reaches the empty `LWriter::WriteBuffer()`. -/
def destroy (s : LFile Node × World Node) : World Node := s.2

variable {fw : Firmware Node} {f : LFile Node} {w : World Node} {ch : UInt8}

omit [DecidableEq Node] in
/-- What every `Handle->Read` keeps is kept by `ReadBuffer()`. -/
theorem readBuffer_keeps {K : Option (Handle Node) × World Node → Prop}
    (read : ∀ n x, K x → K (Efi.read fw n x).2.2) (r : LReader) (x : Option (Handle Node) × World Node)
    (h : K x) : K (readBuffer fw (r, x)).2.2 := by
  have moved := read (readerBufferSize - 1) x h
  unfold readBuffer Reader.fileReadBuffer
  split
  · simp only
    split <;> exact moved
  · exact h

/-- `Write(ch)` on a full buffer sends it first. -/
theorem write_full (full : f.writer.pending.length = writerBufferSize) :
    write fw ch (f, w) =
      ({ f with
        writer := ⟨[ch], Nat.succ_pos 127⟩
        handle := (Efi.write fw f.writer.pending (f.handle, w)).1 },
        (Efi.write fw f.writer.pending (f.handle, w)).2) := by
  have some : f.writer.pending ≠ [] := by
    intro empty
    rw [empty] at full
    cases full
  simp [write, onWriter, Writer.write, full, Writer.flush, writeBuffer, Writer.sendPending, some]

/-- `Write(ch)` with room in the buffer only adds to it. -/
theorem write_room (fw : Firmware Node) (ch : UInt8) (w : World Node)
    (room : f.writer.pending.length ≠ writerBufferSize) :
    ∃ writer : LWriter, writer.pending = f.writer.pending ++ [ch] ∧
      write fw ch (f, w) = ({ f with writer }, w) := by
  refine ⟨⟨f.writer.pending ++ [ch], ?_⟩, rfl, ?_⟩
  · have bound := f.writer.bound
    simp only [List.length_append, List.length_singleton]
    omega
  · simp [write, onWriter, Writer.write, room]

theorem flush_some (some : f.writer.pending ≠ []) :
    flush fw (f, w) =
      ({ f with
        writer := Writer.empty
        handle := (Efi.write fw f.writer.pending (f.handle, w)).1 },
        (Efi.write fw f.writer.pending (f.handle, w)).2) := by
  simp [flush, onWriter, Writer.flush, writeBuffer, Writer.sendPending, some]

theorem flush_none (none : f.writer.pending = []) :
    flush fw (f, w) = ({ f with writer := Writer.empty }, w) := by
  simp [flush, onWriter, Writer.flush, writeBuffer, Writer.sendPending, none]

end LFile

end Lavoro
