import Lavoro.Net.Socket

/-!
# The calls of an `LSocket` with what they ask of the firmware (`lsocket.hpp`, `lsocket.cpp`)

Here the calls keep a log of the firmware calls that concern events and children, and the firmware
may do anything: a `Stack` fixes the statuses it answers in one call, and at each of its moments
(the request, the `i`-th `Poll`, the `i`-th `DoEvents()`) how often it runs the event's callback and
what it leaves in the token. An event or a child is named by its number.
-/

namespace Lavoro.Net.Traced
open Lib

/-- The methods of `EFI_TCP4` that are called. -/
inductive Method where
  | configure
  | getModeData
  | connect
  | transmit
  | receive
  | accept
  | poll
  | close
  deriving Repr, DecidableEq

/-- A call of the firmware. The field `Event` of a token is `none` where it is 0; `bound` says
whether the `ServiceBinding` the call goes through has been obtained. -/
inductive FwCall where
  | createEvent (event : Option Nat)
  | closeEvent (event : Option Nat)
  | child (number : Nat) (method : Method)
  | createChild (bound : Bool) (number : Option Nat)
  | destroyChild (bound : Bool) (number : Nat)
  | accepted (number : Nat)
  deriving Repr, DecidableEq

/-- What the firmware does at a moment: how often the callback runs, the status that the token
has then, and the length of the fragment if it stores one. -/
structure Moment where
  fires : Nat
  status : EfiStatus
  stored : Option Nat

/-- What the firmware does in one call. `configure`, `mapped` and `reconfigured` are the answers to
the configuration, to its repetition once the address is there, and to the last one. -/
structure Stack where
  configure : EfiStatus
  modeData : Nat → EfiStatus × Bool
  mapped : EfiStatus
  reconfigured : EfiStatus
  createEvent : EfiStatus
  request : EfiStatus
  atRequest : Moment
  poll : Nat → EfiStatus
  atPoll : Nat → Moment
  atEvents : Nat → Moment
  closeEvent : EfiStatus

/-- `TCPEventStatus`, how many events and children there have been, and the log. -/
structure World where
  tcpEventStatus : Int
  events : Nat
  children : Nat
  log : List FwCall

namespace World

def call (w : World) (c : FwCall) : World := { w with log := w.log ++ [c] }

/-- `TCPCompletionTokenEventStart()`. -/
def start (w : World) : World := { w with tcpEventStatus := tokenEventStart w.tcpEventStatus }

/-- `TCPCompletionTokenEventFinish()`, called `n` times. -/
def finish (w : World) : Nat → World
  | 0 => w
  | n + 1 => { w with tcpEventStatus := tokenEventFinish w.tcpEventStatus }.finish n

/-- `CreateEvent` on a token that has been cleared: what it has in `Event` then. -/
def createEvent (w : World) (status : EfiStatus) : Option Nat × World :=
  if efiError status then (none, w.call (.createEvent none))
  else (some w.events, { w.call (.createEvent (some w.events)) with events := w.events + 1 })

end World

/-- A call that waits for its token. -/
structure Waiting where
  world : World
  event : Option Nat
  status : EfiStatus
  fragmentLength : Nat
  closed : Bool
  counter : Nat
  polls : Nat

namespace Waiting

def happen (p : Waiting) (m : Moment) : Waiting :=
  { p with
    world := p.world.finish m.fires
    status := m.status
    fragmentLength := m.stored.getD p.fragmentLength }

/-- `Child->Poll`. -/
def poll (p : Waiting) (env : Stack) (child : Nat) : Waiting :=
  ({ p with world := p.world.call (.child child .poll), polls := p.polls + 1 } : Waiting).happen
    (env.atPoll p.polls)

/-- `TCPCompletionTokenEventFinish()` in the loop. -/
def finish (p : Waiting) : Waiting := { p with world := p.world.finish 1 }

/-- `++Counter`. -/
def count (p : Waiting) : Waiting := { p with counter := p.counter + 1 }

/-- `CloseEvent`. -/
def closeEvent (p : Waiting) : World := p.world.call (.closeEvent p.event)

end Waiting

/-- The token has failed, or the tries are used up: `giveUp` is what the call does besides. -/
def settle (giveUp : Waiting → Waiting) (p : Waiting) : Waiting :=
  if efiError p.status then (giveUp p).finish
  else if p.counter + 1 > socketMaxTries then (giveUp p.count).finish
  else p.count

/-- A turn of `while (TCPCompletionTokenEventRunning())` of `Connect` and of `Receive`; it leaves
with `false` when `Poll` fails. -/
def pollTurn (giveUp : Waiting → Waiting) (env : Stack) (child : Nat) (p : Waiting) :
    Turn Waiting (Bool × Waiting) :=
  if !tokenEventRunning p.world.tcpEventStatus then .leave (true, p)
  else if efiError (env.poll p.polls) then .leave (false, p.poll env child)
  else .again (settle giveUp ((p.poll env child).happen (env.atEvents p.polls)))

def connectTurn (env : Stack) (child : Nat) : Waiting → Turn Waiting (Bool × Waiting) :=
  pollTurn id env child

/-- What `Receive` does when it gives up. -/
def giveUpReceive (initialSize : Nat) (p : Waiting) : Waiting :=
  { p with
    fragmentLength := if p.fragmentLength = initialSize then 0 else p.fragmentLength
    closed := true }

def receiveTurn (initialSize : Nat) (env : Stack) (child : Nat) :
    Waiting → Turn Waiting (Bool × Waiting) :=
  pollTurn (giveUpReceive initialSize) env child

/-- In `Transmit` `DoEvents()` comes last. -/
def transmitTurn (env : Stack) (child : Nat) (p : Waiting) : Turn Waiting (Bool × Waiting) :=
  if !tokenEventRunning p.world.tcpEventStatus then .leave (true, p)
  else if efiError (env.poll p.polls) then .leave (false, p.poll env child)
  else .again ((settle id (p.poll env child)).happen (env.atEvents p.polls))

/-- The request has been made: `TCPEventStatus` counts it, and the token is as `ZeroMem` and the
request leave it. -/
def requested (env : Stack) (child : Nat) (method : Method) (event : Option Nat) (fragmentLength : Nat)
    (closed : Bool) (w : World) : Waiting :=
  ({ world := w.call (.child child method), event, status := efiSuccess, fragmentLength, closed,
     counter := 0, polls := 0 } : Waiting).happen env.atRequest

/-- What an `LSocket` holds; of `ServiceBindingHandle` and `ServiceBinding` only whether they are
not `NULL`. -/
structure LSocket where
  serviceBindingHandle : Bool
  serviceBinding : Bool
  handle : Option Nat
  child : Option Nat
  closed : Bool
  deriving Repr, DecidableEq

/-- The wait for the address in `Connect`: whether it may go on. -/
def connectMapping (env : Stack) (child : Nat) : Nat → Nat → World → Option (Bool × World)
  | 0, _, _ => none
  | fuel + 1, i, w =>
    let w := w.call (.child child .getModeData)
    if (env.modeData i).1 = efiAccessDenied then some (false, w)
    else if efiError (env.modeData i).1 then some (true, w)
    else if (env.modeData i).2 then some (true, w)
    else connectMapping env child fuel (i + 1) w

/-- The last step of a configuration, behind an answer `status`. -/
def reconfigure (env : Stack) (child : Nat) (status : EfiStatus) (w : World) : Bool × World :=
  if status = efiAccessDenied then
    (!efiError env.reconfigured, (w.call (.child child .configure)).call (.child child .configure))
  else (true, w)

/-- The configuration in `Connect`: whether it may go on. -/
def connectConfigure (env : Stack) (child fuel : Nat) (w : World) : Option (Bool × World) := do
  let w := w.call (.child child .configure)
  if env.configure = efiNoMapping then
    let (goes, w) ← connectMapping env child fuel 0 w
    if goes then some (reconfigure env child env.mapped (w.call (.child child .configure)))
    else some (false, w)
  else some (reconfigure env child env.configure w)

/-- `Connect` and `Transmit` from `CreateEvent` on. -/
def awaitRequest (turn : Waiting → Turn Waiting (Bool × Waiting)) (env : Stack) (child : Nat)
    (method : Method) (closed : Bool) (fuel : Nat) (w : World) : Option (Bool × World) :=
  let (event, w) := w.createEvent env.createEvent
  if efiError env.createEvent then some (false, w)
  else
    let p := requested env child method event 0 closed w.start
    if efiError env.request then some (false, p.closeEvent)
    else (Loop.run turn fuel p).map fun x => (x.1 && !efiError env.closeEvent, x.2.closeEvent)

/-- `Connect`. -/
def connect (s : LSocket) (env : Stack) (fuel : Nat) (w : World) : Option (Bool × World) :=
  match s.child with
  | none => some (false, w)
  | some child => do
    let (goes, w) ← connectConfigure env child fuel w
    if goes then awaitRequest (connectTurn env child) env child .connect s.closed fuel w
    else some (false, w)

/-- `Transmit`. -/
def transmit (s : LSocket) (env : Stack) (fuel : Nat) (w : World) : Option (Bool × World) :=
  match s.child with
  | none => some (false, w)
  | some child => awaitRequest (transmitTurn env child) env child .transmit s.closed fuel w

/-- The result of a receive: what it returns, `*databufLength` and `Closed`. -/
structure Received where
  result : Bool
  databufLength : Nat
  closed : Bool
  deriving Repr, DecidableEq

/-- The end of `Receive` behind its loop, which `Poll` may have cut short. -/
def received (env : Stack) (x : Bool × Waiting) : Received × World :=
  if !x.1 || efiError x.2.status || efiError env.closeEvent then
    (⟨false, 0, x.2.closed⟩, x.2.closeEvent)
  else (⟨x.2.fragmentLength ≠ 0, x.2.fragmentLength, x.2.closed⟩, x.2.closeEvent)

/-- `Receive`. -/
def receive (s : LSocket) (env : Stack) (initialSize fuel : Nat) (w : World) :
    Option (Received × World) :=
  match s.child with
  | none => some (⟨false, 0, s.closed⟩, w)
  | some child =>
    if s.closed then some (⟨false, 0, s.closed⟩, w)
    else
      let (event, w) := w.start.createEvent env.createEvent
      if efiError env.createEvent then some (⟨false, 0, s.closed⟩, w)
      else
        let p := requested env child .receive event (asUint32 initialSize) s.closed w
        if env.request = efiConnectionFin then
          some (⟨p.fragmentLength ≠ 0, p.fragmentLength, true⟩, p.closeEvent)
        else if efiError env.request then some (⟨false, 0, s.closed⟩, p.closeEvent)
        else (Loop.run (receiveTurn initialSize env child) fuel p).map (received env)

/-- The wait for the address in `Accept`. -/
def acceptMapping (env : Stack) (child : Nat) : Nat → Nat → World → Option World
  | 0, _, _ => none
  | fuel + 1, i, w =>
    let w := w.call (.child child .getModeData)
    if (env.modeData i).2 then some w else acceptMapping env child fuel (i + 1) w

/-- The configuration in `Accept`: whether it may go on. -/
def acceptConfigure (env : Stack) (child fuel : Nat) (w : World) : Option (Bool × World) := do
  let w := w.call (.child child .configure)
  if env.configure = efiNoMapping then
    let w ← acceptMapping env child fuel 0 w
    some (reconfigure env child env.mapped (w.call (.child child .configure)))
  else some (reconfigure env child env.configure w)

/-- `Accept`: its result, and the event that `TCPConnectionAcceptInitialize` has put into the
token. -/
def accept (s : LSocket) (env : Stack) (fuel : Nat) (w : World) : Option (Bool × Option Nat × World) :=
  match s.child with
  | none => some (false, none, w)
  | some child => do
    let (goes, w) ← acceptConfigure env child fuel w
    if goes then
      let (event, w) := (w.call (.child child .getModeData)).createEvent env.createEvent
      some (!efiError env.request, event, w.call (.child child .accept))
    else some (false, none, w)

/-! ## A firmware that answers at once -/

/-- Nothing happens. -/
def Moment.idle : Moment := ⟨0, efiSuccess, none⟩

/-- Every call succeeds, and no token is ever completed. -/
def Stack.silent : Stack where
  configure := efiSuccess
  modeData _ := (efiSuccess, true)
  mapped := efiSuccess
  reconfigured := efiSuccess
  createEvent := efiSuccess
  request := efiSuccess
  atRequest := .idle
  poll _ := efiSuccess
  atPoll _ := .idle
  atEvents _ := .idle
  closeEvent := efiSuccess

end Lavoro.Net.Traced
