import Lavoro.File.Lines
import Lavoro.File.Reading
import Lavoro.Stream.History

/-!
# The buffered writer as an unbuffered file

Without a buffer every byte would be stored at the file's offset when it is written, and a seek
would only move the offset. As long as no call fails, a file whose writer has sent what it holds
is what this file is, whatever was written and wherever it was sought: what is still in the buffer
belongs at the handle's position (`Buffers`), and `SetPosition` sends it before it moves the handle.
-/

namespace Lavoro
open Lib

/-- A call that writes, or `SetPosition`. -/
inductive OutputCall where
  | write (call : WriteCall)
  | setPosition (position : Nat)
  deriving Repr

/-- A file without a buffer. -/
structure Unbuffered where
  content : List UInt8
  offset : Nat
  deriving Repr, DecidableEq

namespace Unbuffered

def write (u : Unbuffered) (ch : UInt8) : Unbuffered :=
  ⟨overwrite 0 u.content u.offset [ch], u.offset + 1⟩

/-- The largest position stands for the end of the file. -/
def seek (u : Unbuffered) (position : Nat) : Unbuffered :=
  { u with offset := if position = 18446744073709551615 then u.content.length else position }

def call (u : Unbuffered) : OutputCall → Unbuffered
  | .write c => (bytesWritten c.steps).foldl write u
  | .setPosition position => u.seek position

def run (calls : List OutputCall) (u : Unbuffered) : Unbuffered := calls.foldl call u

end Unbuffered

variable {Node : Type} [DecidableEq Node]

namespace LFile

/-- The same call on the buffered file. -/
def output (fw : Firmware Node) (s : LFile Node × World Node) : OutputCall → LFile Node × World Node
  | .write c => s.1.onWriter (Writer.call (writeBuffer fw) c (s.1.writer, s.1.handle, s.2))
  | .setPosition position => setPosition fw position s

def outputs (fw : Firmware Node) (calls : List OutputCall) (s : LFile Node × World Node) :
    LFile Node × World Node :=
  calls.foldl (output fw) s

end LFile

/-- No call that writes or seeks fails. -/
structure Writable (fw : Firmware Node) : Prop where
  writes : ∀ i, fw.writes i = .stores
  seeks : ∀ i, fw.seeks i = true

theorem flawless_writable : Writable flawless := ⟨fun _ => rfl, fun _ => rfl⟩

/-- The writer's bytes belong at the handle's position in the file `n`; there they make `u`. -/
def Buffers (n : Node) (p : LWriter × Option (Handle Node) × World Node) (u : Unbuffered) : Prop :=
  ∃ pos old, p.2.1 = some ⟨n, pos⟩ ∧ p.2.2.file n = some old ∧
    u = ⟨overwrite 0 old pos p.1.pending, pos + p.1.pending.length⟩

section Simulation

variable {fw : Firmware Node} {n : Node} {u : Unbuffered}
variable {p : LWriter × Option (Handle Node) × World Node} {s : LFile Node × World Node}

/-- A write that does not fail. -/
theorem write_stored (well : Writable fw) {w : World Node} {pos : Nat} {old : List UInt8}
    (there : w.file n = some old) (payload : List UInt8) :
    Efi.write fw payload (some ⟨n, pos⟩, w) = (some ⟨n, pos + payload.length⟩,
      { w.setFile n (some (overwrite 0 old pos payload)) with writes := w.writes + 1 }) := by
  simp [Efi.write, well.writes, WriteAnswer.stored, there]

/-- Sending what the buffer holds. -/
theorem flush_buffers (well : Writable fw) (h : Buffers n p u) :
    Buffers n (Writer.flush (LFile.writeBuffer fw) p) u := by
  obtain ⟨writer, handle, w⟩ := p
  obtain ⟨pos, old, rfl, there, rfl⟩ := h
  by_cases empty : writer.pending = []
  · have idle : Writer.flush (LFile.writeBuffer fw) (writer, some ⟨n, pos⟩, w) =
        (Writer.empty, some ⟨n, pos⟩, w) := by
      simp [Writer.flush, LFile.writeBuffer, Writer.sendPending, empty]
    rw [idle]
    refine ⟨pos, old, rfl, there, ?_⟩
    simp only [empty]
    rfl
  · have sent : Writer.flush (LFile.writeBuffer fw) (writer, some ⟨n, pos⟩, w) =
        (Writer.empty, Efi.write fw writer.pending (some ⟨n, pos⟩, w)) := by
      simp [Writer.flush, LFile.writeBuffer, Writer.sendPending, empty]
    rw [sent, write_stored well there]
    exact ⟨_, _, rfl, World.setFile_file_same _ _ _, rfl⟩

/-- One byte more. -/
theorem write_buffers (well : Writable fw) (ch : UInt8) (h : Buffers n p u) :
    Buffers n (Writer.write (LFile.writeBuffer fw) ch p) (u.write ch) := by
  by_cases full : p.1.pending.length = writerBufferSize
  · -- the full buffer is sent and the byte is alone in it
    obtain ⟨pos, old, handle, there, same⟩ := flush_buffers well h
    refine ⟨pos, old, ?_, ?_, ?_⟩
    · simpa [Writer.write, full] using handle
    · simpa [Writer.write, full] using there
    · rw [same]
      simp [Writer.write, full, Writer.flush, Writer.empty, Unbuffered.write]
  · obtain ⟨pos, old, handle, there, rfl⟩ := h
    refine ⟨pos, old, ?_, ?_, ?_⟩
    · simpa [Writer.write, full] using handle
    · simpa [Writer.write, full] using there
    · have more : overwrite 0 (overwrite 0 old pos p.1.pending) (pos + p.1.pending.length) [ch] =
          overwrite 0 old pos (p.1.pending ++ [ch]) := overwrite_append
      simp [Writer.write, full, Unbuffered.write, more, Nat.add_assoc]

theorem step_buffers (well : Writable fw) (a : WriteStep) (h : Buffers n p u) :
    Buffers n (Writer.step (LFile.writeBuffer fw) a p) (a.byte?.toList.foldl Unbuffered.write u) := by
  cases a with
  | put ch => exact write_buffers well ch h
  | flush => exact flush_buffers well h

theorem steps_buffers (well : Writable fw) (steps : List WriteStep) (h : Buffers n p u) :
    Buffers n (Writer.runSteps (LFile.writeBuffer fw) steps p)
      ((bytesWritten steps).foldl Unbuffered.write u) := by
  induction steps generalizing p u with
  | nil => exact h
  | cons a steps ih =>
    have later := ih (step_buffers well a h)
    have bytes : bytesWritten (a :: steps) = a.byte?.toList ++ bytesWritten steps := by
      cases a <;> rfl
    rw [bytes, List.foldl_append]
    exact later

/-- Behind `SetPosition` nothing waits in the buffer. -/
theorem setPosition_writer (fw : Firmware Node) (position : Nat) (s : LFile Node × World Node) :
    (LFile.setPosition fw position s).1.writer = Writer.empty := by
  unfold LFile.setPosition
  simp only
  split <;> rfl

/-- `SetPosition` sends what the buffer holds to where it belongs and then moves the handle. -/
theorem setPosition_buffers (well : Writable fw) (position : Nat)
    (h : Buffers n (s.1.writer, s.1.handle, s.2) u) :
    Buffers n ((LFile.setPosition fw position s).1.writer, (LFile.setPosition fw position s).1.handle,
      (LFile.setPosition fw position s).2) (u.seek position) := by
  obtain ⟨pos, old, handle, there, rfl⟩ := flush_buffers well h
  have content : (Writer.flush (LFile.writeBuffer fw) (s.1.writer, s.1.handle, s.2)).2.2.content n = old := by
    rw [World.content, there]
    rfl
  refine ⟨if position = 18446744073709551615 then old.length else position, old, ?_, ?_, ?_⟩
  · simp [LFile.setPosition, LFile.flush, LFile.onWriter, handle, Efi.setPosition, well.seeks, content]
  · simp [LFile.setPosition, LFile.flush, LFile.onWriter, handle, Efi.setPosition, there]
  · rw [setPosition_writer]
    rfl

theorem output_buffers (well : Writable fw) (call : OutputCall)
    (h : Buffers n (s.1.writer, s.1.handle, s.2) u) :
    Buffers n ((LFile.output fw s call).1.writer, (LFile.output fw s call).1.handle,
      (LFile.output fw s call).2) (u.call call) := by
  cases call with
  | write c =>
    have wrote := steps_buffers well c.steps h
    rw [← Writer.call_eq_runSteps] at wrote
    exact wrote
  | setPosition position => exact setPosition_buffers well position h

theorem outputs_buffers (well : Writable fw) (calls : List OutputCall)
    (h : Buffers n (s.1.writer, s.1.handle, s.2) u) :
    Buffers n ((LFile.outputs fw calls s).1.writer, (LFile.outputs fw calls s).1.handle,
      (LFile.outputs fw calls s).2) (Unbuffered.run calls u) := by
  induction calls generalizing s u with
  | nil => exact h
  | cons call calls ih => exact ih (output_buffers well call h)

omit [DecidableEq Node] in
/-- A file with nothing in its buffer is the unbuffered one. -/
theorem buffers_idle {f : LFile Node} {w : World Node} {pos : Nat} {old : List UInt8}
    (handle : f.handle = some ⟨n, pos⟩) (idle : f.writer.pending = []) (there : w.file n = some old) :
    Buffers n (f.writer, f.handle, w) ⟨old, pos⟩ := by
  refine ⟨pos, old, handle, there, ?_⟩
  simp only [idle]
  rfl

end Simulation

/-- **Buffered writing refines unbuffered writing.** -/
theorem outputs_refine {fw : Firmware Node} (well : Writable fw) {n : Node} {f : LFile Node}
    {w : World Node} {pos : Nat} {old : List UInt8} (handle : f.handle = some ⟨n, pos⟩)
    (idle : f.writer.pending = []) (there : w.file n = some old) (calls : List OutputCall) :
    (LFile.flush fw (LFile.outputs fw calls (f, w))).2.file n =
      some (Unbuffered.run calls ⟨old, pos⟩).content := by
  have wrote := outputs_buffers well calls (s := (f, w)) (buffers_idle handle idle there)
  obtain ⟨pos', old', -, there', same⟩ := flush_buffers well wrote
  rw [same]
  exact there'

/-- Bytes in front of a seek, and behind one past the end of the file. -/
theorem outputs_refine_seek :
    (LFile.flush flawless (LFile.outputs flawless
      [.write (.byte 7), .setPosition 5, .write (.bytes [8, 9])]
      (⟨Reader.construct fun _ => 0, Writer.empty, some ⟨[1], 0⟩⟩,
        World.start fun _ => some [1, 2, 3]))).2.file [1] = some [7, 2, 3, 0, 0, 8, 9] :=
  (outputs_refine (f := ⟨Reader.construct fun _ => 0, Writer.empty, some ⟨[1], 0⟩⟩)
    (w := World.start fun _ => some [1, 2, 3]) flawless_writable rfl rfl rfl _).trans (by decide)

end Lavoro
