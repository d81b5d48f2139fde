import Lavoro.Efi.Base

/-!
# The buffered writer (`lwriter.hpp`)

`LWriter` collects bytes in a 128-byte buffer and hands them to the virtual
`WriteBuffer()` when the buffer is full at the next `Write`, or on `Flush()`. The
model keeps the part `buffer[0 .. current)`; nothing reads what lies behind it.
-/

namespace Lavoro

/-- `const long WriterBufferSize`. -/
def writerBufferSize : Nat := 128

structure LWriter where
  pending : List UInt8
  bound : pending.length ≤ writerBufferSize

/-- The virtual `WriteBuffer()` of a writer to a sink `σ`. -/
abbrev WriteBuffer (σ : Type) := LWriter × σ → σ

namespace Writer

variable {σ : Type}

/-- A constructed writer, and one whose `current` has been set to 0. -/
def empty : LWriter := ⟨[], Nat.zero_le _⟩

def flush (writeBuffer : WriteBuffer σ) (p : LWriter × σ) : LWriter × σ :=
  (empty, writeBuffer p)

def reset (_ : LWriter) : LWriter := empty

/-- `Write(ch)`. -/
def write (writeBuffer : WriteBuffer σ) (ch : UInt8) (p : LWriter × σ) : LWriter × σ :=
  if h : p.1.pending.length = writerBufferSize then
    (⟨[ch], Nat.succ_pos 127⟩, (flush writeBuffer p).2)
  else
    (⟨p.1.pending ++ [ch], by
      have bound := p.1.bound
      rw [List.length_append, List.length_singleton]
      omega⟩, p.2)

/-- `Write(pbuffer, size)`. -/
def writeAll (writeBuffer : WriteBuffer σ) (bytes : List UInt8) (p : LWriter × σ) : LWriter × σ :=
  bytes.foldl (fun q ch => write writeBuffer ch q) p

/-- `Write(pbuffer, size)` of `CHAR16` units, of which the low byte is kept. -/
def writeUnits (writeBuffer : WriteBuffer σ) (units : Str16) (p : LWriter × σ) : LWriter × σ :=
  units.foldl (fun q unit => write writeBuffer unit.toUInt8 q) p

/-- `WriteBuffer()` of `LWriter` itself. -/
def baseWriteBuffer : WriteBuffer σ := fun p => p.2

/-- `LWriter::~LWriter()`: behind the destructor of the derived class `WriteBuffer()` is that of
`LWriter`. -/
def destroy (p : LWriter × σ) : LWriter × σ := flush baseWriteBuffer p

/-- `WriteBuffer()` of a writer that hands its bytes to `send`, and nothing if there are none. -/
def sendPending (send : List UInt8 → σ → σ) : WriteBuffer σ := fun p =>
  if p.1.pending ≠ [] then send p.1.pending p.2 else p.2

end Writer

end Lavoro
