import Lavoro.File.Reading
import Lavoro.Net.SocketWriter

/-!
# The writers of a file and of a socket, to their end

A file's writer hands its payloads to the handle and a socket's to `Transmit`; either loses
and reorders nothing while it lives (`writers_keep_order`). The destructor of the file closes
the handle, and that of the socket its child, before the writer is destroyed, and the
`Flush()` of `~LWriter` calls the empty `WriteBuffer()` of `LWriter`: what is in the buffer
then is lost (`destruction_flushes_iff`).
-/

namespace Lavoro
open Lib Writer Net

variable {Node : Type} [DecidableEq Node]

/-- A handle as a writer sees it, and the bytes that it has received. -/
structure FileSink (Node : Type) where
  handle : Option (Handle Node)
  world : World Node
  received : List UInt8

namespace FileSink

/-- The file has been opened and not closed. -/
def Open (s : FileSink Node) : Prop := s.handle.isSome = true

/-- `Handle->Write`. -/
def write (fw : Firmware Node) (payload : List UInt8) (s : FileSink Node) : FileSink Node :=
  let written := Efi.write fw payload (s.handle, s.world)
  { handle := written.1
    world := written.2
    received := match s.handle with
      | none => s.received
      | some _ => s.received ++ (fw.writes s.world.writes).stored payload }

/-- `LFileWriter::WriteBuffer()`. -/
def writeBuffer (fw : Firmware Node) : WriteBuffer (FileSink Node) := sendPending (write fw)

/-- The body of `LFile::~LFile()`: `Close`, after which there is no handle. -/
def close (s : FileSink Node) : FileSink Node := { s with handle := none }

/-- `LFile::~LFile()`, the body and then the members, of which only the writer does anything. -/
def destroyFile (p : LWriter × FileSink Node) : LWriter × FileSink Node :=
  Writer.destroy (p.1, p.2.close)

/-- The file and the world, without the record of what was received. -/
def place (s : FileSink Node) : Option (Handle Node) × World Node := (s.handle, s.world)

theorem place_write (fw : Firmware Node) (payload : List UInt8) (s : FileSink Node) :
    (write fw payload s).place = Efi.write fw payload s.place := rfl

/-- The record changes nothing of what `LFileWriter::WriteBuffer()` does. -/
theorem place_writeBuffer (fw : Firmware Node) (p : LWriter × FileSink Node) :
    (writeBuffer fw p).place = LFile.writeBuffer fw (p.1, p.2.place) := by
  unfold writeBuffer LFile.writeBuffer sendPending
  split <;> rfl

omit [DecidableEq Node] in
/-- The end of a file leaves the world as `LFile.destroy` says. -/
theorem world_destroyFile (f : LFile Node) (w : World Node) (received : List UInt8) :
    (destroyFile (f.writer, ⟨f.handle, w, received⟩)).2.world = LFile.destroy (f, w) := rfl

end FileSink

/-! ## While the writer lives -/

/-- At every moment of the calls the log, which changes nothing, and the buffer hold what has
been written, and after a `Flush()` nothing is in the buffer. -/
def KeepsOrder {σ : Type} (send : List UInt8 → σ → σ) (calls : List WriteCall) (s : σ) : Prop :=
  let steps := calls.flatMap WriteCall.steps
  runCalls (sendPending send) calls (empty, s) = runSteps (sendPending send) steps (empty, s) ∧
    ∀ done, done <+: steps →
      let p := runSteps (sendPending (logged send)) done (empty, s, [])
      let flushed := flush (sendPending (logged send)) p
      runSteps (sendPending send) done (empty, s) = erase p ∧
        InOrder p (bytesWritten done) ∧ InOrder flushed (bytesWritten done) ∧ flushed.1.pending = []

theorem keepsOrder {σ : Type} (send : List UInt8 → σ → σ) (calls : List WriteCall) (s : σ) :
    KeepsOrder send calls s := by
  refine ⟨runCalls_eq_runSteps _ calls _, fun done _ => ?_⟩
  have order := inOrder_runSteps send done s
  exact ⟨runSteps_erase send done (empty, s, []), order, inOrder_flush order, rfl⟩

/-- **Nothing is lost, duplicated or reordered** between the calls on a writer and the handle of
its file, or the `Transmit` of its socket. -/
theorem writers_keep_order (calls : List WriteCall) :
    (∀ (fw : Firmware Node) (s : Option (Handle Node) × World Node), KeepsOrder (Efi.write fw) calls s) ∧
      ∀ o : Outgoing, KeepsOrder Outgoing.transmit calls o :=
  ⟨fun fw s => keepsOrder (Efi.write fw) calls s, fun o => keepsOrder Outgoing.transmit calls o⟩

/-! ## Destruction -/

/-- All the bytes that the calls write. -/
def allWritten (calls : List WriteCall) : List UInt8 := bytesWritten (calls.flatMap WriteCall.steps)

/-- No byte is written behind the last `Flush()`. -/
def Settled (calls : List WriteCall) : Prop :=
  ∀ ch, (calls.flatMap WriteCall.steps).getLast? ≠ some (.put ch)

/-- With a sink that takes every payload, what it has received when the calls are over is
everything exactly when they end settled. -/
theorem received_all_iff {σ : Type} {send : List UInt8 → σ → σ} {received : σ → List UInt8}
    {Good : σ → Prop} (calls : List WriteCall) {s : σ} (good : Good s) (fresh : received s = [])
    (takes : ∀ payload s, Good s → Good (send payload s) ∧ received (send payload s) = received s ++ payload) :
    received (runCalls (sendPending send) calls (empty, s)).2 = allWritten calls ↔ Settled calls := by
  rw [runCalls_eq_runSteps]
  obtain ⟨-, kept⟩ := received_runSteps (calls.flatMap WriteCall.steps) good takes
  rw [fresh, List.nil_append] at kept
  rw [allWritten, ← kept, List.self_eq_append_right]
  exact pending_runSteps_eq_nil_iff _ _ s

theorem fileSink_takes {fw : Firmware Node} (stores : ∀ n, fw.writes n = .stores)
    (payload : List UInt8) (s : FileSink Node) (opened : s.Open) :
    (s.write fw payload).Open ∧ (s.write fw payload).received = s.received ++ payload := by
  obtain ⟨h, handle⟩ := Option.isSome_iff_exists.1 opened
  simp [FileSink.Open, FileSink.write, Efi.write, handle, stores, WriteAnswer.stored]

theorem silence_succeeds : silence.Succeeds where
  createEvent := efiError_success
  request := efiError_success
  poll _ := efiError_success
  completion _ mem := absurd mem (Option.not_mem_none _)
  closeEvent := efiError_success

/-- A connection on which every call of the firmware succeeds. -/
def Working (o : Outgoing) : Prop :=
  o.conn.socket.child = true ∧ o.alive = true ∧ ∀ env ∈ o.conn.calls, env.Succeeds

theorem outgoing_takes (payload : List UInt8) (o : Outgoing) (working : Working o) :
    Working (o.transmit payload) ∧ (o.transmit payload).received = o.received ++ payload := by
  obtain ⟨child, alive, succeeds⟩ := working
  have next : (o.conn.calls.headD silence).Succeeds := by
    cases calls : o.conn.calls with
    | nil => exact silence_succeeds
    | cons env rest => exact succeeds env (calls ▸ List.mem_cons_self)
  have accepts : o.accepts = true := by
    simp only [Outgoing.accepts, child, alive, next.createEvent, next.request, Bool.not_false, Bool.and_self]
  refine ⟨⟨child, alive, fun env mem => ?_⟩, if_pos accepts⟩
  rw [Outgoing.transmit, Connection.transmit, child] at mem
  exact succeeds env (List.mem_of_mem_tail mem)

/-- **When destruction flushes.** The handle of a file, or the child of a socket, has received
all that was written when the object is gone exactly when nothing was written behind the last
`Flush()`. -/
theorem destruction_flushes_iff (calls : List WriteCall) :
    (∀ (fw : Firmware Node) (h : Handle Node) (w : World Node), (∀ n, fw.writes n = .stores) →
        ((FileSink.destroyFile (runCalls (FileSink.writeBuffer fw) calls (empty, ⟨some h, w, []⟩))).2.received =
            allWritten calls ↔ Settled calls)) ∧
      ∀ conn : Connection, Working ⟨conn, true, []⟩ →
        ((destroySocket (runCalls Net.writeBuffer calls (empty, ⟨conn, true, []⟩))).2.received =
            allWritten calls ↔ Settled calls) := by
  refine ⟨fun fw h w stores => ?_, fun conn working => ?_⟩
  · have opened : (⟨some h, w, []⟩ : FileSink Node).Open := rfl
    exact received_all_iff calls opened rfl (fileSink_takes stores)
  · exact received_all_iff calls working rfl outgoing_takes

/-- An open socket whose child exists, on a connection without errors. -/
def openOutgoing : Outgoing := ⟨.opened [], true, []⟩

theorem openOutgoing_working : Working openOutgoing :=
  ⟨rfl, rfl, fun _ mem => absurd mem List.not_mem_nil⟩

theorem destruction_after_flush :
    (FileSink.destroyFile (runCalls (FileSink.writeBuffer flawless) [.byte 7, .flush]
        (empty, ⟨some ⟨[97], 0⟩, .start fun _ => some [], []⟩))).2.received = [7] ∧
      (destroySocket (runCalls Net.writeBuffer [.byte 7, .flush] (empty, openOutgoing))).2.received = [7] := by
  have settled : Settled [.byte 7, .flush] := fun ch => by simp [WriteCall.steps]
  obtain ⟨file, socket⟩ := @destruction_flushes_iff Str16 _ [.byte 7, .flush]
  exact ⟨(file flawless ⟨[97], 0⟩ _ fun _ => rfl).2 settled,
    (socket _ openOutgoing_working).2 settled⟩

/-- **A byte is lost** when the file, or the socket, is destroyed right after it was written. -/
theorem destruction_drops_byte :
    (FileSink.destroyFile (runCalls (FileSink.writeBuffer flawless) [.byte 7]
        (empty, ⟨some ⟨[97], 0⟩, .start fun _ => some [], []⟩))).2.received ≠ allWritten [.byte 7] ∧
      (destroySocket (runCalls Net.writeBuffer [.byte 7] (empty, openOutgoing))).2.received ≠
        allWritten [.byte 7] := by
  decide

end Lavoro
