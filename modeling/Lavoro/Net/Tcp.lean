import Lavoro.Efi.Base
import Lavoro.Lib.Loop

/-!
# Waiting for a completion (`lsocket.cpp`, `lsocket.hpp`)

Every request to the TCP protocol carries a token with an event; the callback of the event
is `TCPCompletionTokenEventFinish`. `TCPEventStatus` counts the requests still pending, for
all sockets together, and a call that has made a request polls until the counter is 0,
giving up one round after the other once the token is completed with an error or more
than `SOCKET_MAX_TRIES` rounds have passed. The three calls have this loop in common
(`pollTurn`); its `DoEvents()` runs tasks, of which there are none.

A `Script` is what the firmware does in one call. Its moments are 0, during the request,
and `i + 1`, during the `i`-th `Poll`.
-/

namespace Lavoro.Net
open Lib

/-- `TCPCompletionTokenEventStart()` on `TCPEventStatus`. -/
def tokenEventStart (tcpEventStatus : Int) : Int := tcpEventStatus + 1

/-- `TCPCompletionTokenEventFinish()`. -/
def tokenEventFinish (tcpEventStatus : Int) : Int :=
  if tcpEventStatus ≠ 0 then tcpEventStatus - 1 else tcpEventStatus

/-- `TCPCompletionTokenEventRunning()`. -/
def tokenEventRunning (tcpEventStatus : Int) : Bool := tcpEventStatus ≠ 0

/-- `SOCKET_MAX_TRIES`. -/
def socketMaxTries : Nat := 40000

/-- The completion of a token: when it happens, its status and, for a receive that
succeeds, the bytes stored in the buffer. -/
structure Completion where
  moment : Nat
  status : EfiStatus
  data : List UInt8

/-- What the firmware does in one call; `callback` is the moment at which the event's
callback runs, if it does before the call is over. -/
structure Script where
  createEvent : EfiStatus
  request : EfiStatus
  completion : Option Completion
  callback : Option Nat
  poll : Nat → EfiStatus
  closeEvent : EfiStatus

/-- The state of a call that waits: `status` is the token's, `polls` the number of polls
made, `buffers` what the completion and the giving up change besides. -/
structure Pending (ρ : Type) where
  tcpEventStatus : Int
  status : EfiStatus
  counter : Nat
  polls : Nat
  buffers : ρ

/-- What a call does to its buffers: when its token is completed, and when it gives up. -/
structure Effects (ρ : Type) where
  complete : Completion → ρ → ρ
  giveUp : ρ → ρ

variable {ρ : Type}

/-- The completion of the token, if it happens at the moment `m`. -/
def Script.completionAt (env : Script) (m : Nat) : Option Completion :=
  env.completion.filter fun k => k.moment = m

/-- The token is completed, if it is at the moment `m`. -/
def completeAt (env : Script) (eff : Effects ρ) (m : Nat) (p : Pending ρ) : Pending ρ :=
  match env.completionAt m with
  | some k => { p with status := k.status, buffers := eff.complete k p.buffers }
  | none => p

/-- What the firmware does at the moment `m`: it completes the token and runs the callback. -/
def deliver (env : Script) (eff : Effects ρ) (m : Nat) (p : Pending ρ) : Pending ρ :=
  let q := completeAt env eff m p
  if env.callback = some m then { q with tcpEventStatus := tokenEventFinish q.tcpEventStatus } else q

/-- `TCPCompletionTokenEventFinish()` in the loop, with what the call does besides. -/
def giveUpOnce (eff : Effects ρ) (p : Pending ρ) : Pending ρ :=
  { p with tcpEventStatus := tokenEventFinish p.tcpEventStatus, buffers := eff.giveUp p.buffers }

/-- One turn of `while (TCPCompletionTokenEventRunning())`; it leaves with `false` when
`Poll` fails. -/
def pollTurn (env : Script) (eff : Effects ρ) (p : Pending ρ) : Turn (Pending ρ) (Bool × Pending ρ) :=
  if !tokenEventRunning p.tcpEventStatus then .leave (true, p)
  else
    let q := deliver env eff (p.polls + 1) { p with polls := p.polls + 1 }
    if efiError (env.poll p.polls) then .leave (false, q)
    else if efiError q.status then .again (giveUpOnce eff q)
    else if q.counter + 1 > socketMaxTries then
      .again (giveUpOnce eff { q with counter := q.counter + 1 })
    else .again { q with counter := q.counter + 1 }

/-- The state in which the loop is entered: the token's status has been cleared, and the
request call is over. -/
def requested (env : Script) (eff : Effects ρ) (tcpEventStatus : Int) (buffers : ρ) : Pending ρ :=
  deliver env eff 0 { tcpEventStatus, status := efiSuccess, counter := 0, polls := 0, buffers }

end Lavoro.Net
