import Lavoro.Net.Polling

/-!
# `Connect`, `Transmit` and `Receive` (`lsocket.hpp`)

A call that fails before its loop returns early and closes the event on the way.
`TCPEventStatus` has been incremented by then, in `Connect` and `Transmit` after the event
was created, in `Receive` before; the early returns leave it so.
-/

namespace Lavoro.Net
open Lib

/-- What of an `LSocket` its calls look at: whether there is a `Child`, and `Closed`. -/
structure LSocket where
  child : Bool
  closed : Bool
  deriving Repr, DecidableEq

theorem shut_of_not_open {s : LSocket} (shut : ¬ (s.child = true ∧ s.closed = false)) :
    (!s.child || s.closed) = true := by
  rcases s with ⟨_ | _, _ | _⟩
  · rfl
  · rfl
  · exact absurd ⟨rfl, rfl⟩ shut
  · rfl

/-- The calls that move no bytes into a buffer. -/
def noEffects : Effects Unit where
  complete _ b := b
  giveUp b := b

/-- From `CreateEvent` to the end of `Connect` and of `Transmit`: the result and
`TCPEventStatus`, or `none` while `fuel` turns of the loop are too few. -/
def awaitRequest (env : Script) (fuel : Nat) (tcpEventStatus : Int) : Option (Bool × Int) :=
  if efiError env.createEvent then some (false, tcpEventStatus)
  else if efiError env.request then some (false, tokenEventStart tcpEventStatus)
  else
    (Loop.run (pollTurn env noEffects) fuel
      (requested env noEffects (tokenEventStart tcpEventStatus) ())).map fun x =>
        (x.1 && !efiError env.closeEvent, x.2.tcpEventStatus)

/-- `Connect`; `configured` says whether the configuration before the request lets it go on. -/
def connect (s : LSocket) (configured : Bool) (env : Script) (fuel : Nat) (tcpEventStatus : Int) :
    Option (Bool × Int) :=
  if !s.child then some (false, tcpEventStatus)
  else if !configured then some (false, tcpEventStatus)
  else awaitRequest env fuel tcpEventStatus

/-- `Transmit`. -/
def transmit (s : LSocket) (env : Script) (fuel : Nat) (tcpEventStatus : Int) : Option (Bool × Int) :=
  if !s.child then some (false, tcpEventStatus)
  else awaitRequest env fuel tcpEventStatus

/-- What a receive changes besides: `frag->FragmentLength`, `Closed`, and the bytes that
the stack has stored in the buffer. -/
structure Fragment where
  fragmentLength : Nat
  closed : Bool
  stored : List UInt8
  deriving Repr, DecidableEq

/-- A successful completion stores its bytes; giving up takes an unchanged length for
nothing stored. -/
def receiveEffects (initialSize : Nat) : Effects Fragment where
  complete k b :=
    if efiError k.status then b else { b with fragmentLength := k.data.length, stored := k.data }
  giveUp b :=
    { b with
      fragmentLength := if b.fragmentLength = initialSize then 0 else b.fragmentLength
      closed := true }

/-- The result of a receive: what it returns, `*databufLength`, the bytes stored, and what
it leaves in `TCPEventStatus` and `Closed`. -/
structure Received where
  result : Bool
  databufLength : Nat
  stored : List UInt8
  tcpEventStatus : Int
  closed : Bool
  deriving Repr, DecidableEq

/-- `FragmentLength` is a `UINT32`. -/
def asUint32 (n : Nat) : Nat := n % 4294967296

/-- The end of `Receive` behind its loop, which `Poll` may have cut short. -/
def received (env : Script) (x : Bool × Pending Fragment) : Received :=
  let failed (p : Pending Fragment) : Received :=
    ⟨false, 0, p.buffers.stored, p.tcpEventStatus, p.buffers.closed⟩
  if !x.1 then failed x.2
  else if efiError x.2.status then failed x.2
  else if efiError env.closeEvent then failed x.2
  else
    ⟨x.2.buffers.fragmentLength ≠ 0, x.2.buffers.fragmentLength, x.2.buffers.stored,
      x.2.tcpEventStatus, x.2.buffers.closed⟩

theorem received_tcp (env : Script) (x : Bool × Pending Fragment) :
    (received env x).tcpEventStatus = x.2.tcpEventStatus := by
  unfold received
  split
  · rfl
  · split
    · rfl
    · split <;> rfl

/-- `Receive` with room for `initialSize` bytes. -/
def receive (s : LSocket) (env : Script) (initialSize : Nat) (fuel : Nat) (tcpEventStatus : Int) :
    Option Received :=
  if !s.child || s.closed then some ⟨false, 0, [], tcpEventStatus, s.closed⟩
  else
    let started := tokenEventStart tcpEventStatus
    if efiError env.createEvent then some ⟨false, 0, [], started, s.closed⟩
    else if env.request = efiConnectionFin then
      some ⟨asUint32 initialSize ≠ 0, asUint32 initialSize, [], started, true⟩
    else if efiError env.request then some ⟨false, 0, [], started, s.closed⟩
    else
      (Loop.run (pollTurn env (receiveEffects initialSize)) fuel
        (requested env (receiveEffects initialSize) started ⟨asUint32 initialSize, s.closed, []⟩)).map
        (received env)

end Lavoro.Net
