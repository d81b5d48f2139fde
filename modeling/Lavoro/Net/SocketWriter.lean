import Lavoro.Net.SocketReader
import Lavoro.Stream.History

/-!
# The writer of a socket (`LSocketWriter`)

`WriteBuffer()` hands the buffer to `Transmit`. An `Outgoing` is what it sees of the network:
the connection, whether the TCP child still exists, and the bytes that the child has received,
which are those of the requests it has accepted.
-/

namespace Lavoro.Net
open Lib

/-- `Connect` and `Transmit` return from the creation of the event on, and the counter is not
negative. -/
theorem awaitRequest_returns (env : Script) {c : Int} (nonneg : 0 ≤ c) :
    ∃ r, awaitRequest env (turns c) c = some r ∧ 0 ≤ r.2 := by
  have started : 0 ≤ tokenEventStart c := by
    unfold tokenEventStart
    omega
  unfold awaitRequest
  split_ifs
  · exact ⟨_, rfl, nonneg⟩
  · exact ⟨_, rfl, started⟩
  · obtain ⟨n, stops, early⟩ := stopsFirst_of_nonneg env started
    have enough : n + 1 ≤ turns c := Nat.succ_le_succ early
    rcases pollTurn_stops noEffects () stops with ⟨-, p, ends, after⟩ | ⟨-, q, ends, after⟩
    · rw [Loop.run_mono ends enough]
      refine ⟨_, rfl, ?_⟩
      show 0 ≤ p.tcpEventStatus
      rw [after.tcp]
      exact finished_nonneg started _
    · rw [Loop.run_mono ends enough]
      refine ⟨_, rfl, ?_⟩
      show 0 ≤ q.tcpEventStatus
      rw [after.tcp]
      exact finished_nonneg started _

/-- **`Transmit` returns.** -/
theorem transmit_returns (s : LSocket) (env : Script) {c : Int} (nonneg : 0 ≤ c) :
    ∃ r, transmit s env (turns c) c = some r ∧ 0 ≤ r.2 := by
  unfold transmit
  split
  · exact ⟨_, rfl, nonneg⟩
  · exact awaitRequest_returns env nonneg

/-- The next `Transmit` of a connection: its result and `TCPEventStatus`. -/
def Connection.transmitted (conn : Connection) :
    { r : Bool × Int // transmit conn.socket (conn.calls.headD silence)
      (turns conn.tcpEventStatus) conn.tcpEventStatus = some r ∧ 0 ≤ r.2 } :=
  match h : transmit conn.socket (conn.calls.headD silence)
      (turns conn.tcpEventStatus) conn.tcpEventStatus with
  | some r => ⟨r, rfl, by
      obtain ⟨r', ends, nonneg⟩ := transmit_returns conn.socket (conn.calls.headD silence) conn.nonneg
      cases h.symm.trans ends
      exact nonneg⟩
  | none => False.elim (by
      obtain ⟨r', ends, -⟩ := transmit_returns conn.socket (conn.calls.headD silence) conn.nonneg
      cases h.symm.trans ends)

/-- `Transmit` on a connection; without a `Child` it calls nothing. -/
def Connection.transmit (conn : Connection) : Connection where
  socket := conn.socket
  tcpEventStatus := conn.transmitted.1.2
  calls := if !conn.socket.child then conn.calls else conn.calls.tail
  nonneg := conn.transmitted.2.2

structure Outgoing where
  conn : Connection
  alive : Bool
  received : List UInt8

/-- The request that the next `Transmit` makes reaches the child, which accepts it. -/
def Outgoing.accepts (o : Outgoing) : Bool :=
  let env := o.conn.calls.headD silence
  o.conn.socket.child && o.alive && !efiError env.createEvent && !efiError env.request

/-- `Transmit(transmitData, transmitDataLength)`. -/
def Outgoing.transmit (payload : List UInt8) (o : Outgoing) : Outgoing :=
  { o with
    conn := o.conn.transmit
    received := if o.accepts then o.received ++ payload else o.received }

/-- `LSocketWriter::WriteBuffer()`. -/
def writeBuffer : WriteBuffer Outgoing := Writer.sendPending Outgoing.transmit

/-- The body of `LSocket::~LSocket()`: `DestroyChild` ends the child; `Child` still points to it. -/
def Outgoing.close (o : Outgoing) : Outgoing := { o with alive := false }

/-- `LSocket::~LSocket()`, the body and then the members, of which only the writer does anything. -/
def destroySocket (p : LWriter × Outgoing) : LWriter × Outgoing :=
  Writer.destroy (p.1, p.2.close)

/-- The calls of the firmware in a `Transmit` all succeed. -/
structure Script.Succeeds (env : Script) : Prop where
  createEvent : efiError env.createEvent = false
  request : efiError env.request = false
  poll : ∀ n, efiError (env.poll n) = false
  completion : ∀ k ∈ env.completion, efiError k.status = false
  closeEvent : efiError env.closeEvent = false

end Lavoro.Net
